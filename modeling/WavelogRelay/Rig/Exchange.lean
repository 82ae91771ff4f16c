import WavelogRelay.Rig.Protocol

/-!
# Rig — what a command does on its connection

The dialogue of a command, over whatever the connection answers.

* `wp_send`, `wp_readLine`: the rules of the two questions.
* `Exchanged`: one command line and its answer, which each of the `exec` functions is a proof of.
* `handleCommand_finished`: the lines of a whole command, and what cuts it short.
* `handleCommand_lines`: the lines of a command that is still being carried out.
-/

namespace WavelogRelay.Rig
open Library Dialogue

/-! ### Events -/

/-- An I/O error or a timeout, or the end of the stream. -/
inductive Failed : WireEvent → Prop where
  | send {line : Text} {e : IoError} : Failed ⟨.send line, .error e⟩
  | read {e : IoError} : Failed ⟨.readLine, .error e⟩
  | eof : Failed ⟨.readLine, .ok []⟩

/-- The line that is written, or tried to. -/
def Ask.line : Ask → Option Text
  | .send line => some line
  | .readLine => none

/-- The lines of a talk. -/
def written (es : List WireEvent) : List Text := es.filterMap fun e => e.1.line

@[simp] theorem written_nil : written [] = [] := rfl

@[simp] theorem written_append (es es' : List WireEvent) :
    written (es ++ es') = written es ++ written es' := List.filterMap_append

@[simp] theorem written_send (line : Text) (a : Answer (.send line)) (es : List WireEvent) :
    written (⟨.send line, a⟩ :: es) = line :: written es := rfl

@[simp] theorem written_readLine (a : Answer .readLine) (es : List WireEvent) :
    written (⟨.readLine, a⟩ :: es) = written es := rfl

/-- What `read_line` makes of what was read. -/
def lineOf : Except IoError Text → Except IoError Text
  | .ok raw => if raw = [] then .error .unexpectedEof else .ok (trimLine raw)
  | .error e => .error e

theorem lineOf_error {a : Except IoError Text} {e : IoError} (h : lineOf a = .error e) :
    Failed ⟨.readLine, a⟩ := by
  cases a with
  | error e => exact .read
  | ok raw =>
      by_cases hraw : raw = []
      · exact hraw ▸ .eof
      · simp [lineOf, hraw] at h

theorem lineOf_ok {a : Except IoError Text} {line : Text} (h : lineOf a = .ok line) :
    ∃ raw, a = .ok raw ∧ raw ≠ [] ∧ line = trimLine raw := by
  cases a with
  | error e => cases h
  | ok raw =>
      by_cases hraw : raw = []
      · simp [lineOf, hraw] at h
      · simp only [lineOf, hraw, if_false] at h
        exact ⟨raw, rfl, hraw, (Except.ok.inj h).symm⟩

/-! ### The two questions -/

section Rules

variable {σ : Type} {env : σ → WireEvent → σ → Prop} {ok : σ → Ask → Prop} {s : σ}

theorem wp_send {post : Except IoError Unit → σ → Prop} {line : Text} :
    wp env ok post (send line) s ↔
      ok s (.send line) ∧ ∀ a s', env s ⟨.send line, a⟩ s' → post a s' := Iff.rfl

theorem wp_readLine {post : Except IoError Text → σ → Prop} :
    wp env ok post readLine s ↔
      ok s .readLine ∧ ∀ a s', env s ⟨.readLine, a⟩ s' → post (lineOf a) s' := by
  refine and_congr_right fun _ => forall_congr' fun a => forall_congr' fun s' =>
    imp_congr_right fun _ => ?_
  cases a with
  | error e => rfl
  | ok raw =>
      by_cases hraw : raw = []
      · subst hraw
        rfl
      · simp only [lineOf, hraw, if_false]
        change wp env ok post (if raw = [] then _ else _) s' ↔ _
        rw [if_neg hraw]
        rfl

end Rules

/-! ### One command line -/

section Logged

variable {F α : Type} {ok : List WireEvent → Ask → Prop} {es₀ : List WireEvent} {line : Text}

/-- **The rule of a command line and the line read after it.** -/
theorem wp_sendRead {β : Type} {post : Except IoError β → List WireEvent → Prop}
    {k : Text → Wire β} (hs : ok es₀ (.send line)) (hr : ∀ es, ok es .readLine)
    (hsend : ∀ io, post (.error io) (es₀ ++ [⟨.send line, .error io⟩]))
    (hread : ∀ a io, lineOf a = .error io →
      post (.error io) (es₀ ++ [⟨.send line, .ok ()⟩, ⟨.readLine, a⟩]))
    (hk : ∀ raw, raw ≠ [] →
      wp logged ok post (k (trimLine raw))
        (es₀ ++ [⟨.send line, .ok ()⟩, ⟨.readLine, .ok raw⟩])) :
    wp logged ok post (send line >>= fun _ => readLine >>= k) es₀ := by
  refine wp_bind (wp_send.mpr ⟨hs, ?_⟩)
  rintro (io | u) _ rfl
  · exact hsend io
  · refine wp_bind (wp_readLine.mpr ⟨hr _, ?_⟩)
    rintro a _ rfl
    cases ha : lineOf a with
    | error io => simpa using hread a io ha
    | ok l =>
        obtain ⟨raw, rfl, hraw, rfl⟩ := lineOf_ok ha
        simpa using hk raw hraw

/-- One command line has been written, and answered: by an answer that is refused when the result
is an error. -/
def Exchanged (line : Text) (refused : Text → Prop) (es₀ : List WireEvent) :
    Except IoError (Except RigError α) → List WireEvent → Prop
  | .error _, es => ∃ es₁ e, es = es₀ ++ (es₁ ++ [e]) ∧ Failed e ∧ written (es₁ ++ [e]) = [line]
  | .ok r, es => ∃ raw rest, es = es₀ ++ ⟨.send line, .ok ()⟩ :: ⟨.readLine, .ok raw⟩ :: rest ∧
      written rest = [] ∧ ((∃ e, r = .error e) ↔ refused (trimLine raw))

variable {refused : Text → Prop}

theorem Exchanged.sendFailed {e : IoError} :
    Exchanged (α := α) line refused es₀ (.error e) (es₀ ++ [⟨.send line, .error e⟩]) :=
  ⟨[], _, rfl, .send, rfl⟩

theorem Exchanged.readFailed {a : Except IoError Text} {e : IoError} (h : lineOf a = .error e) :
    Exchanged (α := α) line refused es₀ (.error e)
      (es₀ ++ [⟨.send line, .ok ()⟩, ⟨.readLine, a⟩]) :=
  ⟨[⟨.send line, .ok ()⟩], _, rfl, lineOf_error h, rfl⟩

theorem Exchanged.answered {r : Except RigError α} {raw : Text}
    (h : (∃ e, r = .error e) ↔ refused (trimLine raw)) :
    Exchanged line refused es₀ (.ok r)
      (es₀ ++ [⟨.send line, .ok ()⟩, ⟨.readLine, .ok raw⟩]) := ⟨raw, [], rfl, rfl, h⟩

theorem Exchanged.lines {res : Except IoError (Except RigError α)} {es : List WireEvent}
    (h : Exchanged line refused es₀ res es) : written es = written es₀ ++ [line] := by
  cases res with
  | error _ =>
      obtain ⟨es₁, e, rfl, -, hes⟩ := h
      rw [written_append, hes]
  | ok r =>
      obtain ⟨raw, rest, rfl, hrest, -⟩ := h
      simp [hrest]

def FreqRefused (answer : Text) : Prop := (parseRprt answer).isSome ∨ parseU64 answer = none

def ModeRefused (answer : Text) : Prop := (parseRprt answer).isSome ∨ firstWord answer = []

def PowerRefused (R : F32 F) (answer : Text) : Prop :=
  (parseRprt answer).isSome ∨ ∀ x, R.parse answer = some x → R.isFinite x = false

def SetRefused (answer : Text) : Prop := parseRprt answer ≠ some 0

theorem parseSetResponse_error_iff {answer : Text} :
    (∃ e, parseSetResponse answer = .error e) ↔ SetRefused answer := by
  unfold parseSetResponse SetRefused
  split <;> simp_all

theorem execGetFreq_exchanged (hs : ok es₀ (.send "f".toList)) (hr : ∀ es, ok es .readLine) :
    wp logged ok (Exchanged "f".toList FreqRefused es₀) execGetFreq es₀ := by
  refine wp_sendRead hs hr (fun _ => .sendFailed) (fun _ _ => .readFailed) fun raw _ => ?_
  cases hrp : parseRprt (trimLine raw) with
  | some code => exact .answered (by simp [FreqRefused, hrp])
  | none =>
      cases hp : parseU64 (trimLine raw) with
      | some hz => exact .answered (by simp [FreqRefused, hrp, hp])
      | none => exact .answered (by simp [FreqRefused, hrp, hp])

theorem execGetMode_exchanged (hs : ok es₀ (.send "m".toList)) (hr : ∀ es, ok es .readLine) :
    wp logged ok (Exchanged "m".toList ModeRefused es₀) execGetMode es₀ := by
  refine wp_sendRead hs hr (fun _ => .sendFailed) (fun _ _ => .readFailed) fun raw _ => ?_
  cases hrp : parseRprt (trimLine raw) with
  | some code => exact .answered (by simp [ModeRefused, hrp])
  | none =>
      by_cases htok : firstWord (trimLine raw) = []
      · -- the passband line, whatever comes of it
        simp only [htok, if_true]
        refine wp_bind (wp_attempt (wp_readLine.mpr ⟨hr _, ?_⟩))
        rintro a _ rfl
        refine ⟨raw, [⟨.readLine, a⟩], by simp, rfl, by simp [ModeRefused, htok]⟩
      · simp only [htok, if_false]
        refine wp_bind (wp_readLine.mpr ⟨hr _, ?_⟩)
        rintro a _ rfl
        cases ha : lineOf a with
        | error io =>
            exact ⟨[⟨.send _, .ok ()⟩, ⟨.readLine, .ok raw⟩], _, by simp, lineOf_error ha, rfl⟩
        | ok l =>
            exact ⟨raw, [⟨.readLine, a⟩], by simp, rfl, by simp [ModeRefused, htok, hrp]⟩

theorem execGetPower_exchanged {R : F32 F} (hs : ok es₀ (.send "\\get_level RFPOWER".toList))
    (hr : ∀ es, ok es .readLine) :
    wp logged ok (Exchanged "\\get_level RFPOWER".toList (PowerRefused R) es₀) (execGetPower R)
      es₀ := by
  refine wp_sendRead hs hr (fun _ => .sendFailed) (fun _ _ => .readFailed) fun raw _ => ?_
  cases hrp : parseRprt (trimLine raw) with
  | some code => exact .answered (by simp [PowerRefused, hrp])
  | none =>
      cases hp : R.parse (trimLine raw) with
      | none => exact .answered (by simp [PowerRefused, hp])
      | some x =>
          dsimp only
          split
          · rename_i hfin
            exact .answered (by simp [PowerRefused, hrp, hp, hfin])
          · rename_i hfin
            exact .answered (by simpa [PowerRefused, hrp, hp] using hfin)

theorem set_exchanged (hs : ok es₀ (.send line)) (hr : ∀ es, ok es .readLine) :
    wp logged ok (Exchanged line SetRefused es₀)
      (send line >>= fun _ => readLine >>= fun answer => pure (parseSetResponse answer)) es₀ :=
  wp_sendRead hs hr (fun _ => .sendFailed) (fun _ _ => .readFailed) fun _ _ =>
    .answered parseSetResponse_error_iff

end Logged

/-! ### A whole command -/

/-- What cuts a command short: an I/O error or a timeout, or an answer to a line of it that is an
error or cannot be parsed, after which no line is written. -/
inductive CutShort : List WireEvent → Prop where
  | failed (es : List WireEvent) {e : WireEvent} (h : Failed e) : CutShort (es ++ [e])
  | freq (es : List WireEvent) {rest : List WireEvent} {raw : Text} (h : FreqRefused (trimLine raw))
      (hrest : written rest = []) :
      CutShort (es ++ ⟨.send "f".toList, .ok ()⟩ :: ⟨.readLine, .ok raw⟩ :: rest)
  | mode (es : List WireEvent) {rest : List WireEvent} {raw : Text} (h : ModeRefused (trimLine raw))
      (hrest : written rest = []) :
      CutShort (es ++ ⟨.send "m".toList, .ok ()⟩ :: ⟨.readLine, .ok raw⟩ :: rest)
  | setFreq (es : List WireEvent) {rest : List WireEvent} {hz : UInt64} {raw : Text}
      (h : SetRefused (trimLine raw)) (hrest : written rest = []) :
      CutShort (es ++ ⟨.send (setFreqLine hz), .ok ()⟩ :: ⟨.readLine, .ok raw⟩ :: rest)

/-- The first line is written and answered by an RPRT line with code 0. -/
def Acknowledged (line : Text) (es : List WireEvent) : Prop :=
  ∃ raw rest, es = ⟨.send line, .ok ()⟩ :: ⟨.readLine, .ok raw⟩ :: rest ∧
    parseRprt (trimLine raw) = some 0

/-- What holds of the talk of a command at any point of it. -/
structure Orderly (cmd : RigCommand) (es : List WireEvent) : Prop where
  lines : written es <+: linesOf cmd
  ack : ∀ hz mode, cmd = .setFreqMode hz mode → setModeLine mode ∈ written es →
    Acknowledged (setFreqLine hz) es

/-- What holds of the talk of a command that has ended. -/
structure Finished {α : Type} (cmd : RigCommand) (res : Except IoError α) (es : List WireEvent) :
    Prop where
  whole : written es = linesOf cmd ∨ CutShort es
  io : ∀ e, res = .error e → ∃ es₁ e', es = es₁ ++ [e'] ∧ Failed e'
  ack : ∀ hz mode, cmd = .setFreqMode hz mode →
    (setModeLine mode ∈ written es ↔ Acknowledged (setFreqLine hz) es)

/-- The questions that keep the talk of a command orderly. -/
def MayAsk (cmd : RigCommand) (es : List WireEvent) : Ask → Prop
  | .send line => written es ++ [line] <+: linesOf cmd ∧
      ∀ hz mode, cmd = .setFreqMode hz mode → line = setModeLine mode →
        Acknowledged (setFreqLine hz) es
  | .readLine => True

theorem Acknowledged.append {line : Text} {es : List WireEvent} (h : Acknowledged line es)
    (es' : List WireEvent) : Acknowledged line (es ++ es') := by
  obtain ⟨raw, rest, rfl, hraw⟩ := h
  exact ⟨raw, rest ++ es', rfl, hraw⟩

theorem Orderly.ask {cmd : RigCommand} {es : List WireEvent} {q : Ask} (a : Answer q)
    (h : Orderly cmd es) (hq : MayAsk cmd es q) : Orderly cmd (es ++ [⟨q, a⟩]) := by
  cases q with
  | send line =>
      refine ⟨by simpa using hq.1, fun hz mode hcmd hmem => ?_⟩
      rw [written_append, List.mem_append] at hmem
      rcases hmem with hmem | hmem
      · exact (h.ack hz mode hcmd hmem).append _
      · exact (hq.2 hz mode hcmd (List.mem_singleton.mp hmem).symm).append _
  | readLine =>
      exact ⟨by simpa using h.lines, fun hz mode hcmd hmem =>
        (h.ack hz mode hcmd (by simpa using hmem)).append _⟩

section Commands

variable {F α : Type} {cmd : RigCommand} {es : List WireEvent}

theorem Finished.of_lines {res : Except IoError α} (hcmd : ∀ hz mode, cmd ≠ .setFreqMode hz mode)
    (h : written es = linesOf cmd ∨ CutShort es)
    (hio : ∀ e, res = .error e → ∃ es₁ e', es = es₁ ++ [e'] ∧ Failed e') : Finished cmd res es :=
  ⟨h, hio, fun hz mode e => absurd e (hcmd hz mode)⟩

/-- A command ends with the I/O error of one of its lines. -/
theorem Finished.of_error {β : Type} {line : Text} {refused : Text → Prop} {es₀ : List WireEvent}
    {e : IoError} (hcmd : ∀ hz mode, cmd ≠ .setFreqMode hz mode)
    (h : Exchanged (α := β) line refused es₀ (.error e) es) :
    Finished cmd (.error e : Except IoError α) es := by
  obtain ⟨es₁, e', rfl, he', -⟩ := h
  rw [← List.append_assoc]
  exact .of_lines hcmd (.inr (.failed _ he')) fun _ _ => ⟨_, _, rfl, he'⟩

/-- The commands of one line. -/
theorem wp_single {β : Type} {p : Wire (Except RigError β)} {line : Text} {refused : Text → Prop}
    (hcmd : ∀ hz mode, cmd ≠ .setFreqMode hz mode) (hl : linesOf cmd = [line])
    (h : wp logged (MayAsk cmd) (Exchanged line refused []) p []) :
    wp logged (MayAsk cmd) (Finished cmd) p [] := by
  refine wp_mono (fun res es hres => ?_) h
  cases res with
  | error e => exact .of_error hcmd hres
  | ok r => exact .of_lines hcmd (.inl (by simpa [hl] using hres.lines)) fun _ e => by cases e

theorem mayAsk_first {line : Text} {rest : List Text}
    (hcmd : ∀ hz mode, cmd ≠ .setFreqMode hz mode) (hl : linesOf cmd = written es ++ line :: rest) :
    MayAsk cmd es (.send line) :=
  ⟨⟨rest, by simp [hl]⟩, fun hz mode e => absurd e (hcmd hz mode)⟩

theorem execPoll_finished {R : F32 F} :
    wp logged (MayAsk .poll) (Finished .poll) (execPoll R) [] := by
  have hcmd : ∀ hz mode, RigCommand.poll ≠ .setFreqMode hz mode := fun _ _ h => by cases h
  have hr : ∀ es, MayAsk .poll es .readLine := fun _ => trivial
  refine wp_bind (wp_mono (fun res es hres => ?_)
    (execGetFreq_exchanged (mayAsk_first hcmd rfl) hr))
  rcases res with e | e | freq
  · exact .of_error hcmd hres
  · obtain ⟨raw, rest, rfl, hrest, href⟩ := hres
    exact .of_lines hcmd (.inr (.freq _ (href.mp ⟨e, rfl⟩) hrest)) fun _ e => by cases e
  have hes := hres.lines
  refine wp_bind (wp_mono (fun res es' hres => ?_)
    (execGetMode_exchanged (mayAsk_first hcmd (by rw [hes]; rfl)) hr))
  rcases res with e | e | mode
  · exact .of_error hcmd hres
  · obtain ⟨raw, rest, rfl, hrest, href⟩ := hres
    exact .of_lines hcmd (.inr (.mode _ (href.mp ⟨e, rfl⟩) hrest)) fun _ e => by cases e
  have hes' := hres.lines
  refine wp_bind (wp_mono (fun res es'' hres => ?_)
    (execGetPower_exchanged (mayAsk_first hcmd (by rw [hes', hes]; rfl)) hr))
  have hes'' : written es'' = linesOf .poll := by
    rw [hres.lines, hes', hes]
    rfl
  rcases res with e | e | power
  · exact .of_error hcmd hres
  · cases e <;> exact .of_lines hcmd (.inl hes'') fun _ e => by cases e
  · exact .of_lines hcmd (.inl hes'') fun _ e => by cases e

theorem parseRprt_of_parseSetResponse {answer : Text} (h : parseSetResponse answer = .ok ()) :
    parseRprt answer = some 0 := by
  by_contra hne
  obtain ⟨e, he⟩ := parseSetResponse_error_iff.mpr hne
  cases h.symm.trans he

theorem setModeLine_ne {mode : HamlibMode} {hz : UInt64} : setModeLine mode ≠ setFreqLine hz :=
  fun h => by cases (List.cons.inj h).1

theorem execSetFreqMode_finished {hz : UInt64} {mode : HamlibMode} :
    wp logged (MayAsk (.setFreqMode hz mode)) (Finished (.setFreqMode hz mode))
      (execSetFreqMode hz mode) [] := by
  have hr : ∀ es, MayAsk (.setFreqMode hz mode) es .readLine := fun _ => trivial
  have hfirst : MayAsk (.setFreqMode hz mode) [] (.send (setFreqLine hz)) :=
    ⟨⟨[setModeLine mode], rfl⟩, fun _ _ _ h => absurd h.symm setModeLine_ne⟩
  -- where only the `F` line is written, it must not be acknowledged
  have hshort : ∀ {res : Except IoError (Except RigError Unit)} {es : List WireEvent},
      CutShort es → written es = [setFreqLine hz] → ¬ Acknowledged (setFreqLine hz) es →
      (∀ e, res = .error e → ∃ es₁ e', es = es₁ ++ [e'] ∧ Failed e') →
      Finished (.setFreqMode hz mode) res es := fun hcut hes hack hio =>
    ⟨.inr hcut, hio, fun hz' mode' hcmd => by
      cases hcmd
      rw [hes, List.mem_singleton]
      exact iff_of_false setModeLine_ne hack⟩
  -- where both are, it must be
  have hboth : ∀ {res : Except IoError (Except RigError Unit)} {es : List WireEvent},
      written es = [setFreqLine hz, setModeLine mode] → Acknowledged (setFreqLine hz) es →
      (∀ e, res = .error e → ∃ es₁ e', es = es₁ ++ [e'] ∧ Failed e') →
      Finished (.setFreqMode hz mode) res es := fun hes hack hio =>
    ⟨.inl hes, hio, fun hz' mode' hcmd => by
      cases hcmd
      rw [hes]
      exact iff_of_true (by simp) hack⟩
  refine wp_sendRead hfirst hr (fun io => ?_) (fun a io ha => ?_) fun raw hraw => ?_
  · refine hshort (.failed [] .send) rfl ?_ fun _ _ => ⟨[], _, rfl, .send⟩
    rintro ⟨_, _, heq, -⟩
    cases heq
  · have hfail := lineOf_error ha
    refine hshort (.failed [_] hfail) rfl ?_ fun _ _ => ⟨[_], _, rfl, hfail⟩
    rintro ⟨raw, _, heq, hzero⟩
    cases heq
    cases hfail
    cases hzero
  · have hack : parseSetResponse (trimLine raw) = .ok () → ∀ es,
        Acknowledged (setFreqLine hz) (⟨.send (setFreqLine hz), .ok ()⟩ ::
          ⟨.readLine, .ok raw⟩ :: es) :=
      fun h es => ⟨raw, es, rfl, parseRprt_of_parseSetResponse h⟩
    cases hp : parseSetResponse (trimLine raw) with
    | error e =>
        have href : SetRefused (trimLine raw) := parseSetResponse_error_iff.mp ⟨e, hp⟩
        refine hshort (.setFreq [] href rfl) rfl ?_ fun _ h => by cases h
        rintro ⟨_, _, heq, hzero⟩
        cases heq
        exact href hzero
    | ok _ =>
        have hsecond : MayAsk (.setFreqMode hz mode)
            [⟨.send (setFreqLine hz), .ok ()⟩, ⟨.readLine, .ok raw⟩] (.send (setModeLine mode)) :=
          ⟨⟨[], rfl⟩, fun _ _ h _ => by
            cases h
            exact hack hp []⟩
        refine wp_sendRead hsecond hr (fun io => ?_) (fun a io ha => ?_) fun raw' _ => ?_
        · exact hboth rfl (hack hp _) fun _ _ => ⟨[_, _], _, rfl, .send⟩
        · exact hboth rfl (hack hp _) fun _ _ => ⟨[_, _, _], _, rfl, lineOf_error ha⟩
        · exact hboth rfl (hack hp _) fun _ h => by cases h

/-- What a whole command does does not depend on the channel its result goes to. -/
theorem Finished.reply {β : Type} {p : Wire (Except RigError β)} (f : β → Reply F)
    (h : wp logged (MayAsk cmd) (Finished cmd) p es) :
    wp logged (MayAsk cmd) (Finished cmd) (p >>= fun r => pure (r.map f)) es := by
  refine wp_bind (wp_mono (fun res es hres => ?_) h)
  cases res with
  | error e => exact ⟨hres.whole, fun e' he' => hres.io e (by rw [Except.error.inj he']), hres.ack⟩
  | ok r => exact ⟨hres.whole, (fun _ h => by cases h), hres.ack⟩

/-- **A command from its start.** -/
theorem handleCommand_finished (R : F32 F) (cmd : RigCommand) :
    wp logged (MayAsk cmd) (Finished cmd) (handleCommand R cmd) [] := by
  have hr : ∀ {cmd} es, MayAsk cmd es .readLine := fun _ => trivial
  cases cmd with
  | getFreq =>
      have hcmd : ∀ hz mode, RigCommand.getFreq ≠ .setFreqMode hz mode := fun _ _ h => by cases h
      exact Finished.reply _ (wp_single hcmd rfl (execGetFreq_exchanged (mayAsk_first hcmd rfl) hr))
  | getMode =>
      have hcmd : ∀ hz mode, RigCommand.getMode ≠ .setFreqMode hz mode := fun _ _ h => by cases h
      exact Finished.reply _ (wp_single hcmd rfl (execGetMode_exchanged (mayAsk_first hcmd rfl) hr))
  | getPower =>
      have hcmd : ∀ hz mode, RigCommand.getPower ≠ .setFreqMode hz mode := fun _ _ h => by cases h
      exact Finished.reply _
        (wp_single hcmd rfl (execGetPower_exchanged (mayAsk_first hcmd rfl) hr))
  | poll => exact Finished.reply _ execPoll_finished
  | setFreq hz =>
      have hcmd : ∀ hz' mode, RigCommand.setFreq hz ≠ .setFreqMode hz' mode :=
        fun _ _ h => by cases h
      exact Finished.reply _ (wp_single hcmd rfl (set_exchanged (mayAsk_first hcmd rfl) hr))
  | setMode mode =>
      have hcmd : ∀ hz mode', RigCommand.setMode mode ≠ .setFreqMode hz mode' :=
        fun _ _ h => by cases h
      exact Finished.reply _ (wp_single hcmd rfl (set_exchanged (mayAsk_first hcmd rfl) hr))
  | setFreqMode hz mode => exact Finished.reply _ execSetFreqMode_finished

end Commands

end WavelogRelay.Rig
