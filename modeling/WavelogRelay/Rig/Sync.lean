import WavelogRelay.Rig.Actor
import WavelogRelay.Rig.Exchange

/-!
# Rig — whether a reply is the reply to its command

The actor against a `rigctld` that answers the lines of a connection in order (`Serves`): the
lines it has answered and that are not read yet are `owed`, and a read gives the first of them or
fails.  In sync, nothing is owed when a command line is written and nothing has failed on a
connection that is used.

`exec_get_mode` throws the error of its second read away where the first line has no token
(`DrainFails`).

* `handleCommand_synced`: a command that ends without an I/O error leaves nothing owed, as long as
  no such read fails.
* `in_sync`: so in every run the actor is in sync.
* `drain_timeout_out_of_sync`: otherwise it need not be.
-/

namespace WavelogRelay.Rig
open Library Dialogue

variable {F : Type}

/-! ### The server -/

/-- What the server answers a command line with. -/
inductive Answers : Text → List Text → Prop where
  | line {line r : Text} (hline : line ≠ "m".toList) (hr : '\n' ∉ r) : Answers line [r]
  | rprt {r : Text} (hr : '\n' ∉ r) (hrprt : "RPRT ".toList <+: r) : Answers "m".toList [r]
  | mode {r passband : Text} (hr : '\n' ∉ r) (hpass : '\n' ∉ passband)
      (hrprt : ¬ "RPRT ".toList <+: r) : Answers "m".toList [r, passband]

/-- A connection as the server sees it. -/
structure Peer where
  log : List WireEvent
  /-- The response lines that are sent or still to be sent, and not read. -/
  owed : List Text

def Peer.fresh : Peer := ⟨[], []⟩

inductive Serves : Peer → WireEvent → Peer → Prop where
  | sent {p : Peer} {line : Text} {rs : List Text} (h : Answers line rs) :
      Serves p ⟨.send line, .ok ()⟩ ⟨p.log ++ [⟨.send line, .ok ()⟩], p.owed ++ rs⟩
  -- the line may have reached the server all the same
  | sendFailed {p : Peer} {line : Text} {rs : List Text} {e : IoError}
      (h : rs = [] ∨ Answers line rs) :
      Serves p ⟨.send line, .error e⟩ ⟨p.log ++ [⟨.send line, .error e⟩], p.owed ++ rs⟩
  | read {p : Peer} {r : Text} {rest : List Text} (h : p.owed = r :: rest) :
      Serves p ⟨.readLine, .ok (r ++ ['\n'])⟩
        ⟨p.log ++ [⟨.readLine, .ok (r ++ ['\n'])⟩], rest⟩
  -- the line is late, or never comes
  | readFailed {p : Peer} {a : Except IoError Text} (h : Failed ⟨.readLine, a⟩) :
      Serves p ⟨.readLine, a⟩ ⟨p.log ++ [⟨.readLine, a⟩], p.owed⟩

/-- A read fails whose error is thrown away: the first line of the answer to `m` was no RPRT line
and had no token. -/
def DrainFails (p : Peer) (e : WireEvent) : Prop :=
  Failed e ∧ ∃ log raw, p.log = log ++ [⟨.send "m".toList, .ok ()⟩, ⟨.readLine, .ok raw⟩] ∧
    parseRprt (trimLine raw) = none ∧ firstWord (trimLine raw) = []

/-- Nothing is owed, and nothing has failed. -/
def Peer.Synced (p : Peer) : Prop := p.owed = [] ∧ ∀ e ∈ p.log, ¬ Failed e

/-- Nothing has failed on the connection, and nothing is owed when a line is written to it. -/
def InStep (p : Peer) (q : Ask) : Prop :=
  (∀ e ∈ p.log, ¬ Failed e) ∧ ∀ line, q = .send line → p.owed = []

/-! ### Lines -/

theorem rprt_of_parseRprt {line : Text} (h : (parseRprt line).isSome) :
    "RPRT ".toList <+: line := by
  obtain ⟨code, hcode⟩ := Option.isSome_iff_exists.mp h
  obtain ⟨n, hn, -⟩ := Option.bind_eq_some_iff.mp hcode
  exact ⟨n, stripPrefix?_eq_some hn⟩

/-- A line that is no RPRT line is read as none. -/
theorem parseRprt_of_not_rprt {r : Text} (h : ¬ "RPRT ".toList <+: r) :
    parseRprt (trimLine (r ++ ['\n'])) = none := by
  by_contra hne
  have hpre := (rprt_of_parseRprt (Option.isSome_iff_ne_none.mpr hne)).trans
    (trimEndMatches_isPrefix _ _)
  rcases List.prefix_concat_iff.mp (by simpa using hpre) with heq | hpre
  · have hlast := congrArg List.getLast? heq
    simp at hlast
  · exact h hpre

/-- An RPRT line has a token, whatever its code is. -/
theorem firstWord_of_rprt {r : Text} (h : "RPRT ".toList <+: r) :
    firstWord (trimLine (r ++ ['\n'])) ≠ [] := by
  obtain ⟨t, rfl⟩ := h
  have : trimLine ("RPRT ".toList ++ t ++ ['\n']) =
      "RPRT".toList ++ ' ' :: trimLine (t ++ ['\n']) :=
    trimEndMatches_append (by decide) "RPRT".toList _
  rw [this]
  exact firstWord_cons_ne_nil (by decide) _

/-! ### Commands -/

/-- The server, as long as no drain fails. -/
def Kept (p : Peer) (e : WireEvent) (p' : Peer) : Prop := Serves p e p' ∧ ¬ DrainFails p e

/-- A command that ends without an I/O error leaves the connection in sync. -/
def Settled {α : Type} : Except IoError α → Peer → Prop
  | .ok _, p => p.Synced
  | .error _, _ => True

section Wp

variable {α : Type} {p p' : Peer}

theorem Serves.of_sent {line : Text} (h : Serves p ⟨.send line, .ok ()⟩ p') :
    ∃ rs, Answers line rs ∧ p' = ⟨p.log ++ [⟨.send line, .ok ()⟩], p.owed ++ rs⟩ := by
  cases h with
  | sent h => exact ⟨_, h, rfl⟩

/-- A line that is read is the first that is owed. -/
theorem Serves.of_read {a : Except IoError Text} {line : Text} (h : Serves p ⟨.readLine, a⟩ p')
    (ha : lineOf a = .ok line) : ∃ r rest, p.owed = r :: rest ∧ line = trimLine (r ++ ['\n']) ∧
      p' = ⟨p.log ++ [⟨.readLine, .ok (r ++ ['\n'])⟩], rest⟩ := by
  cases h with
  | @read r rest howed =>
      obtain ⟨raw, hraw, -, rfl⟩ := lineOf_ok ha
      cases hraw
      exact ⟨_, _, howed, rfl, rfl⟩
  | readFailed hfail =>
      cases hfail <;> cases ha

/-- **The rule of a command line**, written in sync, and the line read after it. -/
theorem wp_line {line : Text} {k : Text → Wire α} (hp : p.Synced)
    (hk : ∀ {r rest}, Answers line (r :: rest) →
      wp Kept InStep Settled (k (trimLine (r ++ ['\n'])))
        ⟨p.log ++ [⟨.send line, .ok ()⟩, ⟨.readLine, .ok (r ++ ['\n'])⟩], rest⟩) :
    wp Kept InStep Settled (send line >>= fun _ => readLine >>= k) p := by
  obtain ⟨howed, hlog⟩ := hp
  refine wp_bind (wp_send.mpr ⟨⟨hlog, fun _ _ => howed⟩, ?_⟩)
  rintro (io | u) p₁ ⟨hserves, -⟩
  · trivial
  · obtain ⟨rs, hans, rfl⟩ := hserves.of_sent
    have hlog₁ : ∀ e ∈ p.log ++ [⟨.send line, .ok ()⟩], ¬ Failed e := by
      intro e he
      rcases List.mem_append.mp he with he | he
      · exact hlog e he
      · rw [List.mem_singleton.mp he]
        intro h
        cases h
    refine wp_bind (wp_readLine.mpr ⟨⟨hlog₁, fun _ h => by cases h⟩, ?_⟩)
    rintro a p₂ ⟨hserves, -⟩
    cases ha : lineOf a with
    | error io => trivial
    | ok l =>
        obtain ⟨r, rest, hrs, rfl, rfl⟩ := hserves.of_read ha
        rw [howed, List.nil_append] at hrs
        subst hrs
        simpa using hk hans

theorem not_failed_read {r : Text} : ¬ Failed ⟨.readLine, .ok (r ++ ['\n'])⟩ := fun h => by
  generalize hraw : r ++ ['\n'] = raw at h
  cases h
  simp at hraw

/-- A line written and answered, and the answer read. -/
theorem Peer.Synced.exchange (hp : p.Synced) {line r : Text} :
    ∀ e ∈ p.log ++ [⟨.send line, .ok ()⟩, ⟨.readLine, .ok (r ++ ['\n'])⟩], ¬ Failed e := by
  intro e he
  simp only [List.mem_append, List.mem_cons, List.not_mem_nil, or_false] at he
  rcases he with he | rfl | rfl
  · exact hp.2 e he
  · intro h
    cases h
  · exact not_failed_read

/-- **The commands of one line** that is not `m`. -/
theorem wp_line_one {line : Text} {k : Text → Wire α} (hp : p.Synced) (hline : line ≠ "m".toList)
    (hk : ∀ l, ∃ r, k l = .done (.ok r)) :
    wp Kept InStep Settled (send line >>= fun _ => readLine >>= k) p := by
  refine wp_line hp fun {r rest} hans => ?_
  cases hans with
  | line =>
      obtain ⟨res, hres⟩ := hk (trimLine (r ++ ['\n']))
      rw [hres]
      exact ⟨rfl, hp.exchange⟩
  | rprt | mode => exact absurd rfl hline

theorem execGetFreq_synced (hp : p.Synced) : wp Kept InStep Settled execGetFreq p := by
  refine wp_line_one hp (by decide) fun l => ?_
  split
  · exact ⟨_, rfl⟩
  · split <;> exact ⟨_, rfl⟩

theorem execGetPower_synced {R : F32 F} (hp : p.Synced) :
    wp Kept InStep Settled (execGetPower R) p := by
  refine wp_line_one hp (by decide) fun l => ?_
  split
  · exact ⟨_, rfl⟩
  · split
    · exact ⟨_, rfl⟩
    · split <;> exact ⟨_, rfl⟩

theorem set_synced {line : Text} (hp : p.Synced) (hline : line ≠ "m".toList) :
    wp Kept InStep Settled
      (send line >>= fun _ => readLine >>= fun answer => pure (parseSetResponse answer)) p :=
  wp_line_one hp hline fun _ => ⟨_, rfl⟩

theorem setFreqLine_ne_m {hz : UInt64} : setFreqLine hz ≠ "m".toList := fun h => by
  cases (List.cons.inj h).1

theorem setModeLine_ne_m {mode : HamlibMode} : setModeLine mode ≠ "m".toList := fun h => by
  cases (List.cons.inj h).1

/-- **The mode**, whose answer has one line or two. -/
theorem execGetMode_synced (hp : p.Synced) : wp Kept InStep Settled execGetMode p := by
  refine wp_line hp fun {r rest} hans => ?_
  cases hans with
  | line h => exact absurd rfl h
  | rprt hr hrprt =>
      cases hcode : parseRprt (trimLine (r ++ ['\n'])) with
      | some code => exact ⟨rfl, hp.exchange⟩
      | none =>
          simp only [firstWord_of_rprt hrprt, if_false]
          -- a second line is read, but none is owed
          refine wp_bind (wp_readLine.mpr ⟨⟨hp.exchange, fun _ h => by cases h⟩, ?_⟩)
          rintro a p₁ ⟨hserves, -⟩
          cases ha : lineOf a with
          | error io => trivial
          | ok l =>
              obtain ⟨_, _, howed, -⟩ := hserves.of_read ha
              cases howed
  | @mode _ passband hr hpass hrprt =>
      simp only [parseRprt_of_not_rprt hrprt]
      -- the passband line is owed
      have hread : ∀ {a p₁ l}, Serves
          ⟨p.log ++ [⟨.send "m".toList, .ok ()⟩, ⟨.readLine, .ok (r ++ ['\n'])⟩], [passband]⟩
          ⟨.readLine, a⟩ p₁ → lineOf a = .ok l → p₁.Synced := by
        intro a p₁ l hserves ha
        obtain ⟨_, _, howed, -, rfl⟩ := hserves.of_read ha
        obtain ⟨rfl, rfl⟩ := List.cons.inj howed
        refine ⟨rfl, fun e he => ?_⟩
        rcases List.mem_append.mp he with he | he
        · exact hp.exchange e he
        · rw [List.mem_singleton.mp he]
          exact not_failed_read
      split
      · rename_i htok
        refine wp_bind (wp_attempt (wp_readLine.mpr ⟨⟨hp.exchange, fun _ h => by cases h⟩, ?_⟩))
        rintro a p₁ ⟨hserves, hdrain⟩
        cases ha : lineOf a with
        | ok l => exact hread hserves ha
        | error io =>
            exact absurd ⟨lineOf_error ha, _, _, rfl, parseRprt_of_not_rprt hrprt, htok⟩ hdrain
      · refine wp_bind (wp_readLine.mpr ⟨⟨hp.exchange, fun _ h => by cases h⟩, ?_⟩)
        rintro a p₁ ⟨hserves, -⟩
        cases ha : lineOf a with
        | ok l => exact hread hserves ha
        | error io => trivial

/-- One line after another, in sync in between. -/
theorem synced_bind {β : Type} {d : Wire α} {f : α → Wire β}
    (h : wp Kept InStep Settled d p)
    (hf : ∀ a p', p'.Synced → wp Kept InStep Settled (f a) p') :
    wp Kept InStep Settled (d >>= f) p := by
  refine wp_bind (wp_mono (fun res p' hres => ?_) h)
  cases res with
  | ok a => exact hf a p' hres
  | error e => trivial

theorem execPoll_synced {R : F32 F} (hp : p.Synced) :
    wp Kept InStep Settled (execPoll R) p := by
  refine synced_bind (execGetFreq_synced hp) fun freq p₁ hp₁ => ?_
  split
  · exact hp₁
  · refine synced_bind (execGetMode_synced hp₁) fun mode p₂ hp₂ => ?_
    split
    · exact hp₂
    · refine synced_bind (execGetPower_synced hp₂) fun power p₃ hp₃ => ?_
      split <;> exact hp₃

theorem execSetFreqMode_synced {hz : UInt64} {mode : HamlibMode} (hp : p.Synced) :
    wp Kept InStep Settled (execSetFreqMode hz mode) p := by
  refine wp_line hp fun {r rest} hans => ?_
  cases hans with
  | line =>
      split
      · exact ⟨rfl, hp.exchange⟩
      · exact set_synced ⟨rfl, hp.exchange⟩ setModeLine_ne_m

/-- **Every command** that is started in sync is carried out in sync, and leaves the connection in
sync if it ends without an I/O error. -/
theorem handleCommand_synced (R : F32 F) (cmd : RigCommand) (hp : p.Synced) :
    wp Kept InStep Settled (handleCommand R cmd) p := by
  have reply {β : Type} {d : Wire (Except RigError β)} (f : β → Reply F)
      (h : wp Kept InStep Settled d p) :
      wp Kept InStep Settled (d >>= fun r => pure (r.map f)) p :=
    synced_bind h fun _ _ hp' => hp'
  cases cmd with
  | getFreq => exact reply _ (execGetFreq_synced hp)
  | getMode => exact reply _ (execGetMode_synced hp)
  | getPower => exact reply _ (execGetPower_synced hp)
  | poll => exact reply _ (execPoll_synced hp)
  | setFreq hz => exact reply _ (set_synced hp setFreqLine_ne_m)
  | setMode mode => exact reply _ (set_synced hp setModeLine_ne_m)
  | setFreqMode hz mode => exact reply _ (execSetFreqMode_synced hp)

end Wp

/-! ### Runs -/

/-- An act on the connection, or the making of one. -/
def Act.onPeer : Act F → Bool
  | .connected _ | .wire .. => true
  | _ => false

/-- The actor and its clients, and the server at the other end of its connection. -/
inductive Linked (R : F32 F) : World F × Peer → Act F → World F × Peer → Prop where
  | connected {w w' : World F} {p : Peer} {conn : Nat} (h : Step R w (.connected conn) w') :
      Linked R (w, p) (.connected conn) (w', .fresh)
  | wire {w w' : World F} {p p' : Peer} {conn : Nat} {e : WireEvent}
      (h : Step R w (.wire conn e) w') (hp : Serves p e p') :
      Linked R (w, p) (.wire conn e) (w', p')
  | other {w w' : World F} {p : Peer} {a : Act F} (h : Step R w a w') (ha : a.onPeer = false) :
      Linked R (w, p) a (w', p)

/-- No drain fails. -/
def DrainsKept (s : World F × Peer) (a : Act F) : Prop :=
  ∀ conn e, a = .wire conn e → ¬ DrainFails s.2 e

/-- **Whenever the actor is about to use its connection**, nothing has failed on it, and nothing is
owed when it is to write a command line. -/
def InSync (s : World F × Peer) : Prop :=
  ∀ conn job q k, s.1.phase = .running conn job (.ask q k) → InStep s.2 q

/-- The invariant: between commands the connection is in sync, and what is left of a command is
carried out in sync. -/
def KeptInSync (p : Peer) : Phase F → Prop
  | .serving _ => p.Synced
  | .running _ _ rest => wp Kept InStep Settled rest p
  | _ => True

variable {R : F32 F} {s s' : World F × Peer} {a : Act F}

theorem KeptInSync.step (h : KeptInSync s.2 s.1.phase) (ha : DrainsKept s a)
    (hs : Linked R s a s') : KeptInSync s'.2 s'.1.phase := by
  cases hs with
  | connected hstep =>
      cases hstep with
      | connected => exact ⟨rfl, fun _ h => by cases h⟩
  | wire hstep hp =>
      cases hstep with
      | wire hph a =>
          simp only [hph] at h
          exact (wp_ask.mp h).2 a _ ⟨hp, ha _ _ rfl⟩
  | other hstep hother =>
      cases hstep with
      | connected | wire => cases hother
      | requested | abandoned | sent | handlesDropped | drained => exact h
      | received hph =>
          simp only [hph] at h
          exact handleCommand_synced R _ h
      | served hph =>
          simp only [hph] at h
          exact h
      | connectFailed | lost | woke | stoppedServing | stoppedSleeping => trivial

/-- **In every run in which no drain fails the actor is in sync.** -/
theorem in_sync {tr : List (Act F)}
    (h : Run (Linked R) DrainsKept (.spawn, .fresh) tr s) : InSync s := by
  have hstart : KeptInSync .fresh (World.spawn : World F).phase := trivial
  have hkept : KeptInSync s.2 s.1.phase :=
    h.invariant (I := fun _ s => KeptInSync s.2 s.1.phase) hstart fun _ h hC hs => h.step hC hs
  intro conn job q k hph
  rw [hph] at hkept
  exact (wp_ask.mp hkept).1

def modeJob : Job := ⟨0, .getMode⟩

def nextJob : Job := ⟨1, .getFreq⟩

/-- A `get_mode` whose mode is empty, and a `get_freq` after it.  The passband line is late. -/
def lateActs (drain : Except IoError Text) : List (Act Nat) :=
  [.connected 0, .requested modeJob, .sent modeJob, .received 0 modeJob,
    .wire 0 ⟨.send "m".toList, .ok ()⟩, .wire 0 ⟨.readLine, .ok "\n".toList⟩,
    .wire 0 ⟨.readLine, drain⟩, .served 0 modeJob (.error (.badResponse [])),
    .requested nextJob, .sent nextJob, .received 0 nextJob]

/-- The actor is about to write `f`. -/
def aboutToSend (drain : Except IoError Text) (owed : List Text) : World Nat × Peer :=
  ({ (World.spawn : World Nat) with
      requests := 2, conns := 1, phase := .running 0 nextJob (handleCommand wholePower .getFreq) },
    ⟨[⟨.send "m".toList, .ok ()⟩, ⟨.readLine, .ok "\n".toList⟩, ⟨.readLine, drain⟩], owed⟩)

theorem drainsKept_of_not_wire (ha : a.onPeer = false) : DrainsKept s a := fun conn e h => by
  rw [h] at ha
  cases ha

theorem drainsKept_of_ok {conn : Nat} {e : WireEvent} (he : ¬ Failed e) :
    DrainsKept s (.wire conn e) := fun _ _ h hdrain => by
  cases h
  exact he hdrain.1

/-- A passband line that comes in time leaves the actor in sync. -/
theorem passband_in_time_in_sync :
    InSync (aboutToSend (.ok "2400\n".toList) []) := by
  suffices h : Run (Linked wholePower) DrainsKept (.spawn, .fresh)
      (lateActs (.ok "2400\n".toList)) (aboutToSend (.ok "2400\n".toList) []) from in_sync h
  have hempty : '\n' ∉ ([] : Text) := List.not_mem_nil
  have hans : Answers "m".toList [[], "2400".toList] :=
    .mode hempty (by decide) (by decide)
  refine .cons (fun _ _ h => by cases h) (.connected (.connected rfl)) ?_
  refine .cons (drainsKept_of_not_wire rfl) (.other (.requested _ rfl) rfl) ?_
  refine .cons (drainsKept_of_not_wire rfl) (.other (.sent (l := []) rfl (by decide)) rfl) ?_
  refine .cons (drainsKept_of_not_wire rfl) (.other (.received rfl rfl) rfl) ?_
  refine .cons (drainsKept_of_ok fun h => by cases h)
    (.wire (.wire (q := .send _) rfl (.ok ())) (.sent hans)) ?_
  refine .cons (drainsKept_of_ok (not_failed_read (r := [])))
    (.wire (.wire (q := .readLine) rfl (.ok _)) (.read (r := []) rfl)) ?_
  refine .cons (drainsKept_of_ok (not_failed_read (r := "2400".toList)))
    (.wire (.wire (q := .readLine) rfl (.ok _)) (.read (r := "2400".toList) rfl)) ?_
  refine .cons (drainsKept_of_not_wire rfl) (.other (.served rfl) rfl) ?_
  refine .cons (drainsKept_of_not_wire rfl) (.other (.requested _ rfl) rfl) ?_
  refine .cons (drainsKept_of_not_wire rfl) (.other (.sent (l := []) rfl (by decide)) rfl) ?_
  refine .cons (drainsKept_of_not_wire rfl) (.other (.received rfl rfl) rfl) ?_
  exact .nil

/-- **A passband line that comes late does not**: it is owed when `f` is written. -/
theorem drain_timeout_out_of_sync :
    ¬ ∀ tr s, Run (Linked wholePower) Always (.spawn, .fresh) tr s → InSync s := by
  intro hall
  have hsync := hall (lateActs (.error .timedOut)) (aboutToSend (.error .timedOut) ["2400".toList])
    (by
      have hempty : '\n' ∉ ([] : Text) := List.not_mem_nil
      have hans : Answers "m".toList [[], "2400".toList] :=
        .mode hempty (by decide) (by decide)
      refine .cons trivial (.connected (.connected rfl)) ?_
      refine .cons trivial (.other (.requested _ rfl) rfl) ?_
      refine .cons trivial (.other (.sent (l := []) rfl (by decide)) rfl) ?_
      refine .cons trivial (.other (.received rfl rfl) rfl) ?_
      refine .cons trivial (.wire (.wire (q := .send _) rfl (.ok ())) (.sent hans)) ?_
      refine .cons trivial (.wire (.wire (q := .readLine) rfl (.ok _)) (.read (r := []) rfl)) ?_
      refine .cons trivial
        (.wire (.wire (q := .readLine) rfl (.error .timedOut)) (.readFailed .read)) ?_
      refine .cons trivial (.other (.served rfl) rfl) ?_
      refine .cons trivial (.other (.requested _ rfl) rfl) ?_
      refine .cons trivial (.other (.sent (l := []) rfl (by decide)) rfl) ?_
      refine .cons trivial (.other (.received rfl rfl) rfl) ?_
      exact .nil)
  have howed := (hsync 0 nextJob _ _ rfl).2 _ rfl
  cases howed

end WavelogRelay.Rig
