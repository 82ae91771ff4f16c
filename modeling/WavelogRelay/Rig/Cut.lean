import WavelogRelay.Library.Stream
import WavelogRelay.Rig.Exchange

/-!
# Rig — a response that is cut

The server's stream as bytes: of its response to a command, the client gets `got` and then the
stream ends, and `lost` is the rest.  `StreamRun p got res` is a run of the program `p` on that
stream; a send may fail in it, and so may a read.  `serve` is the run in which nothing fails.

* `Careful`: a program that throws away no line but one, and gives up at an error.
* `cut_safe_iff`: the cuts after which the reply is the right one or that the connection is lost,
  and no line without its newline is interpreted.
* `truncated_frequency`: a cut after which it is another frequency.
-/

namespace WavelogRelay.Rig
open Library Dialogue

variable {F α β : Type}

/-! ### Runs on a stream -/

/-- How a read is answered: with the line, which must be UTF-8. -/
def decoded (raw : Bytes) : Except IoError Text :=
  match fromUtf8 raw with
  | some t => .ok t
  | none => .error .other

/-- The run on a stream that ends after `b`, in which no send and no read fails. -/
def serve : Wire α → Bytes → Except IoError α
  | .done res, _ => res
  | .ask (.send _) k, b => serve (k (.ok ())) b
  | .ask .readLine k, b => serve (k (decoded (nextLine b).1)) (nextLine b).2

/-- `b` is a complete response: every line that is read has its newline, and nothing is left. -/
def Complete : Wire α → Bytes → Prop
  | .done _, b => b = []
  | .ask (.send _) k, b => Complete (k (.ok ())) b
  | .ask .readLine k, b => newline ∈ b ∧ Complete (k (decoded (nextLine b).1)) (nextLine b).2

/-- A run on a stream that ends after `b`. -/
inductive StreamRun : Wire α → Bytes → Except IoError α → Prop where
  | done {res : Except IoError α} {b : Bytes} : StreamRun (.done res) b res
  | sent {line : Text} {k : Answer (.send line) → Wire α} {b : Bytes} {res : Except IoError α}
      (h : StreamRun (k (.ok ())) b res) : StreamRun (.ask (.send line) k) b res
  | sendFailed {line : Text} {k : Answer (.send line) → Wire α} {b : Bytes}
      {res : Except IoError α} (e : IoError) (h : StreamRun (k (.error e)) b res) :
      StreamRun (.ask (.send line) k) b res
  | read {k : Answer .readLine → Wire α} {b : Bytes} {res : Except IoError α}
      (h : StreamRun (k (decoded (nextLine b).1)) (nextLine b).2 res) :
      StreamRun (.ask .readLine k) b res
  -- the connection is reset: nothing more can be read
  | readFailed {k : Answer .readLine → Wire α} {b : Bytes} {res : Except IoError α} (e : IoError)
      (h : StreamRun (k (.error e)) [] res) : StreamRun (.ask .readLine k) b res

/-- What `dispatch` sends on the reply channel. -/
def delivered : Except IoError (Except RigError α) → Except RigError α
  | .ok res => res
  | .error _ => .error .disconnected

/-- What is read is thrown away. -/
def Discards (k : Answer .readLine → Wire α) : Prop :=
  ∀ t t' : Text, t ≠ [] → t' ≠ [] → k (.ok t) = k (.ok t')

/-- On a stream that ends after `b`, no line without its newline is interpreted. -/
def Uninterpreted : Wire α → Bytes → Prop
  | .done _, _ => True
  | .ask (.send _) k, b => Uninterpreted (k (.ok ())) b
  | .ask .readLine k, b =>
      (newline ∉ b → ∀ t, t ≠ [] → decoded b = .ok t → Discards k) ∧
        Uninterpreted (k (decoded (nextLine b).1)) (nextLine b).2

/-- Of a response, `got` is received and `lost` is not: the reply is that the connection is lost, or
what it is to the whole response. -/
structure CutSafe (p : Wire (Except RigError α)) (got lost : Bytes) : Prop where
  reply : ∀ res, StreamRun p got res → delivered res = .error .disconnected ∨
    delivered res = delivered (serve p (got ++ lost))
  uninterpreted : Uninterpreted p got

/-! ### Lines -/

theorem decoded_ok {raw : Bytes} {t : Text} (h : decoded raw = .ok t) : raw = utf8 t := by
  unfold decoded at h
  split at h
  · rename_i t' ht
    cases h
    exact fromUtf8_eq_some_iff.mp ht
  · cases h

theorem decoded_some {raw : Bytes} {t : Text} (h : fromUtf8 raw = some t) :
    decoded raw = .ok t := by
  rw [decoded, h]

theorem decoded_none {raw : Bytes} (h : fromUtf8 raw = none) : decoded raw = .error .other := by
  rw [decoded, h]

theorem text_ne_nil {raw : Bytes} {t : Text} (hraw : raw ≠ []) (h : fromUtf8 raw = some t) :
    t ≠ [] := by
  rintro rfl
  exact hraw (fromUtf8_eq_some_iff.mp h)

/-- What is done once a line is sent. -/
def onSent (p : Wire α) : Except IoError Unit → Wire α
  | .ok () => p
  | .error e => .done (.error e)

/-- What is done with a line that is read. -/
def onLine (k : Text → Wire α) (a : Except IoError Text) : Wire α :=
  match lineOf a with
  | .ok line => k line
  | .error e => .done (.error e)

theorem send_bind (line : Text) (k : Unit → Wire α) :
    send line >>= k = .ask (.send line) (onSent (k ())) := by
  refine congrArg (Dialogue.ask _) (funext fun a => ?_)
  cases a <;> rfl

theorem readLine_bind (k : Text → Wire α) : readLine >>= k = .ask .readLine (onLine k) := by
  refine congrArg (Dialogue.ask _) (funext fun a => ?_)
  cases a with
  | error e => rfl
  | ok raw =>
      by_cases hraw : raw = []
      · subst hraw
        rfl
      · change (if raw = [] then _ else _ : Wire Text) >>= k = onLine k (.ok raw)
        rw [if_neg hraw, onLine, lineOf, if_neg hraw]
        rfl

theorem attempt_readLine_bind (p : Wire α) :
    (readLine.attempt >>= fun _ => p) = .ask .readLine fun _ => p := by
  refine congrArg (Dialogue.ask _) (funext fun a => ?_)
  cases a with
  | error e => rfl
  | ok raw =>
      by_cases hraw : raw = []
      · subst hraw
        rfl
      · change ((if raw = [] then _ else _ : Wire Text).attempt >>= fun _ => p) = p
        rw [if_neg hraw]
        rfl

theorem onLine_ok {k : Text → Wire α} {t : Text} (ht : t ≠ []) :
    onLine k (.ok t) = k (trimLine t) := by
  rw [onLine, lineOf, if_neg ht]

@[simp] theorem onLine_error (k : Text → Wire α) (e : IoError) :
    onLine k (.error e) = .done (.error e) := rfl

theorem onLine_cases (k : Text → Wire α) (a : Except IoError Text) :
    (∃ line, lineOf a = .ok line ∧ onLine k a = k line) ∨
      ∃ e, onLine k a = .done (.error e) := by
  unfold onLine
  cases lineOf a with
  | ok line => exact .inl ⟨line, rfl, rfl⟩
  | error e => exact .inr ⟨e, rfl⟩

theorem ask_send_bind (line : Text) (p : Wire α) (f : α → Wire β) :
    (.ask (.send line) (onSent p) : Wire α) >>= f = .ask (.send line) (onSent (p >>= f)) := by
  refine congrArg (Dialogue.ask _) (funext fun a => ?_)
  cases a <;> rfl

theorem onLine_bind (k : Text → Wire α) (f : α → Wire β) (a : Except IoError Text) :
    onLine k a >>= f = onLine (fun line => k line >>= f) a := by
  unfold onLine
  cases lineOf a <;> rfl

theorem ask_readLine_bind (k : Text → Wire α) (f : α → Wire β) :
    (.ask .readLine (onLine k) : Wire α) >>= f =
      .ask .readLine (onLine fun line => k line >>= f) :=
  congrArg (Dialogue.ask _) (funext fun a => onLine_bind k f a)

/-! ### The steps of a run -/

section Steps

variable {got lost : Bytes}

theorem StreamRun.eq_of_done {res res' : Except IoError α} {b : Bytes}
    (h : StreamRun (.done res) b res') : res' = res := by
  cases h
  rfl

theorem uninterpreted_nil : ∀ p : Wire α, Uninterpreted p []
  | .done _ => trivial
  | .ask (.send _) k => uninterpreted_nil (k (.ok ()))
  | .ask .readLine k =>
      ⟨fun _ _ ht h => absurd (Except.ok.inj h).symm ht, uninterpreted_nil (k (decoded []))⟩

/-- What is read of a stream that ends inside a line is the text that is there. -/
theorem onLine_unterminated {k : Text → Wire α} {t : Text} (hgot : newline ∉ got) (hne : got ≠ [])
    (ht : fromUtf8 got = some t) : onLine k (decoded (nextLine got).1) = k (trimLine t) := by
  rw [nextLine_unterminated hgot, decoded_some ht, onLine_ok (text_ne_nil hne ht)]

theorem discards_const (p : Wire α) : Discards (onLine fun _ => p) := fun _ _ ht ht' => by
  rw [onLine_ok ht, onLine_ok ht']

theorem Complete.rest {k : Answer .readLine → Wire α} (hgot : newline ∈ got)
    (h : Complete (.ask .readLine k) (got ++ lost)) :
    Complete (k (decoded (nextLine got).1)) ((nextLine got).2 ++ lost) := by
  have hrest := h.2
  rwa [nextLine_append hgot] at hrest

theorem cutSafe_done (res : Except IoError (Except RigError α)) :
    CutSafe (.done res) got lost :=
  ⟨fun _ h => .inr (by rw [h.eq_of_done]; rfl), trivial⟩

theorem cutSafe_send_iff {line : Text} {p : Wire (Except RigError α)} :
    CutSafe (.ask (.send line) (onSent p)) got lost ↔ CutSafe p got lost := by
  refine ⟨fun h => ⟨fun res hres => h.reply res (.sent hres), h.uninterpreted⟩,
    fun h => ⟨fun res hres => ?_, h.uninterpreted⟩⟩
  cases hres with
  | sent hres => exact h.reply res hres
  | sendFailed e hres =>
      rw [hres.eq_of_done]
      exact .inl rfl

variable {k : Text → Wire (Except RigError α)}

/-- A failed read ends the command. -/
theorem delivered_readFailed {e : IoError} {b : Bytes} {res : Except IoError (Except RigError α)}
    (h : StreamRun (onLine k (.error e)) b res) : delivered res = .error .disconnected := by
  rw [h.eq_of_done]
  rfl

/-- **A line that is received whole is read as it would have been.** -/
theorem cutSafe_whole_iff (hgot : newline ∈ got) :
    CutSafe (.ask .readLine (onLine k)) got lost ↔
      CutSafe (onLine k (decoded (nextLine got).1)) (nextLine got).2 lost := by
  have hserve : serve (.ask .readLine (onLine k)) (got ++ lost) =
      serve (onLine k (decoded (nextLine got).1)) ((nextLine got).2 ++ lost) := by
    rw [serve, nextLine_append hgot]
  constructor
  · intro h
    exact ⟨fun res hres => hserve ▸ h.reply res (.read hres), h.uninterpreted.2⟩
  · intro h
    refine ⟨fun res hres => ?_, fun hn => absurd hgot hn, h.uninterpreted⟩
    cases hres with
    | read hres => exact hserve ▸ h.reply res hres
    | readFailed e hres => exact .inl (delivered_readFailed hres)

/-- The end of the stream, and a line that is no text, are errors. -/
theorem cutSafe_of_no_text (hgot : newline ∉ got) (h : got = [] ∨ fromUtf8 got = none) :
    CutSafe (.ask .readLine (onLine k)) got lost := by
  obtain ⟨e, he⟩ : ∃ e, onLine k (decoded got) = .done (.error e) := by
    rcases h with rfl | h
    · exact ⟨_, rfl⟩
    · exact ⟨_, by rw [decoded_none h, onLine_error]⟩
  have hline := nextLine_unterminated hgot
  refine ⟨fun res hres => ?_, fun _ t ht hdec => ?_, ?_⟩
  · cases hres with
    | read hres =>
        rw [hline, he] at hres
        rw [hres.eq_of_done]
        exact .inl rfl
    | readFailed e hres => exact .inl (delivered_readFailed hres)
  · rcases h with rfl | h
    · exact absurd (Except.ok.inj hdec).symm ht
    · rw [decoded_none h] at hdec
      cases hdec
  · rw [hline, he]
    trivial

/-- **A line without its newline is interpreted.** -/
theorem cutSafe_unterminated_iff (hgot : newline ∉ got) (hk : ¬ Discards (onLine k)) :
    CutSafe (.ask .readLine (onLine k)) got lost ↔ got = [] ∨ fromUtf8 got = none := by
  refine ⟨fun h => ?_, cutSafe_of_no_text hgot⟩
  by_contra hne
  obtain ⟨hne, htext⟩ := not_or.mp hne
  obtain ⟨t, ht⟩ := Option.ne_none_iff_exists'.mp htext
  exact hk (h.uninterpreted.1 hgot t (text_ne_nil hne ht) (decoded_some ht))

end Steps

/-! ### Careful programs -/

/-- A program that interprets every line it reads, but for the `i`-th, which it throws away.  An
error ends it, but for one at the line it throws away where nothing comes after. -/
inductive Careful : Option Nat → Wire (Except RigError α) → Prop where
  | done {i : Option Nat} {res : Except IoError (Except RigError α)} : Careful i (.done res)
  | sends {i : Option Nat} {line : Text} {p : Wire (Except RigError α)} (hp : Careful i p) :
      Careful i (.ask (.send line) (onSent p))
  | interprets {i : Option Nat} {k : Text → Wire (Except RigError α)} (hi : i ≠ some 0)
      (hint : ¬ Discards (onLine k)) (hk : ∀ line, Careful (i.map Nat.pred) (k line)) :
      Careful i (.ask .readLine (onLine k))
  | drained {res : Except IoError (Except RigError α)} :
      Careful (some 0) (.ask .readLine fun _ => .done res)
  | passed {line : Text} {k : Text → Wire (Except RigError α)}
      (hp : Careful none (send line >>= fun _ => readLine >>= k)) :
      Careful (some 0) (.ask .readLine (onLine fun _ => send line >>= fun _ => readLine >>= k))

/-- The stream ends between two lines, inside a character, or inside line `i`. -/
def CleanAt (i : Option Nat) (got : Bytes) : Prop :=
  unfinished got = [] ∨ fromUtf8 (unfinished got) = none ∨ i = some (got.count newline)

section Clean

variable {got lost : Bytes}

theorem cleanAt_of_nil {i : Option Nat} (h : got ++ lost = []) : CleanAt i got :=
  .inl (by rw [(List.append_eq_nil_iff.mp h).1]; rfl)

theorem cleanAt_nextLine_iff {i j : Option Nat} (hgot : newline ∈ got)
    (hij : ∀ n, j = some n ↔ i = some (n + 1)) : CleanAt j (nextLine got).2 ↔ CleanAt i got := by
  rw [CleanAt, CleanAt, unfinished_nextLine hgot, count_nextLine hgot, hij]

theorem cleanAt_unterminated_iff {i : Option Nat} (hgot : newline ∉ got) :
    CleanAt i got ↔ got = [] ∨ fromUtf8 got = none ∨ i = some 0 := by
  rw [CleanAt, unfinished_unterminated hgot, List.count_eq_zero.mpr hgot]

theorem pred_eq_some_iff {i : Option Nat} (hi : i ≠ some 0) (n : Nat) :
    i.map Nat.pred = some n ↔ i = some (n + 1) := by
  rcases i with _ | _ | i
  · simp
  · exact absurd rfl hi
  · simp

/-- The end of the stream inside a line that is thrown away, with a line to come. -/
theorem cutSafe_passed {line : Text} {k : Text → Wire (Except RigError α)}
    (hgot : newline ∉ got) :
    CutSafe (.ask .readLine (onLine fun _ => send line >>= fun _ => readLine >>= k)) got lost := by
  by_cases hbad : got = [] ∨ fromUtf8 got = none
  · exact cutSafe_of_no_text hgot hbad
  obtain ⟨hne, htext⟩ := not_or.mp hbad
  obtain ⟨t, ht⟩ := Option.ne_none_iff_exists'.mp htext
  refine ⟨fun res hres => .inl ?_, fun _ _ _ _ => discards_const _, ?_⟩
  · cases hres with
    | readFailed e hres => exact delivered_readFailed hres
    | read hres =>
        rw [onLine_unterminated hgot hne ht, nextLine_unterminated hgot, send_bind,
          readLine_bind] at hres
        cases hres with
        | sendFailed e hres =>
            rw [hres.eq_of_done]
            rfl
        | sent hres =>
            -- the stream has ended
            cases hres with
            | read hres =>
                rw [hres.eq_of_done]
                rfl
            | readFailed e hres => exact delivered_readFailed hres
  · rw [onLine_unterminated hgot hne ht, nextLine_unterminated hgot]
    exact uninterpreted_nil _

theorem cutSafe_drained {res : Except IoError (Except RigError α)} :
    CutSafe (.ask .readLine fun _ => .done res) got lost := by
  refine ⟨fun res' hres => .inr ?_, fun _ _ _ _ _ _ _ _ => rfl, trivial⟩
  cases hres with
  | read hres => rw [hres.eq_of_done]; rfl
  | readFailed _ hres => rw [hres.eq_of_done]; rfl

/-- A line that is received whole: what holds of what follows holds of the whole. -/
theorem cutSafe_iff_of_whole {i j : Option Nat} {k : Text → Wire (Except RigError α)}
    (hgot : newline ∈ got) (hij : ∀ n, j = some n ↔ i = some (n + 1))
    (hc : Complete (.ask .readLine (onLine k)) (got ++ lost))
    (hk : ∀ line, Complete (k line) ((nextLine got).2 ++ lost) →
      (CutSafe (k line) (nextLine got).2 lost ↔ CleanAt j (nextLine got).2)) :
    CutSafe (.ask .readLine (onLine k)) got lost ↔ CleanAt i got := by
  have hrest := hc.rest hgot
  rw [cutSafe_whole_iff hgot, ← cleanAt_nextLine_iff hgot hij]
  rcases onLine_cases k (decoded (nextLine got).1) with ⟨line, -, hline⟩ | ⟨e, he⟩
  · rw [hline] at hrest ⊢
    exact hk line hrest
  · rw [he] at hrest ⊢
    exact iff_of_true (cutSafe_done _) (cleanAt_of_nil hrest)

/-- **Where a complete response to a careful program may be cut.** -/
theorem Careful.cutSafe_iff {i : Option Nat} {p : Wire (Except RigError α)} (h : Careful i p) :
    ∀ {got lost : Bytes}, Complete p (got ++ lost) → (CutSafe p got lost ↔ CleanAt i got) := by
  have hlast : ∀ n, (none : Option Nat) = some n ↔ some 0 = some (n + 1) := fun n => by simp
  induction h with
  | done => exact fun hc => iff_of_true (cutSafe_done _) (cleanAt_of_nil hc)
  | sends _ ih => exact fun hc => cutSafe_send_iff.trans (ih hc)
  | interprets hi hint _ ih =>
      intro got lost hc
      by_cases hgot : newline ∈ got
      · exact cutSafe_iff_of_whole hgot (pred_eq_some_iff hi) hc fun line => ih line
      · rw [cutSafe_unterminated_iff hgot hint, cleanAt_unterminated_iff hgot]
        simp [hi]
  | drained =>
      intro got lost hc
      refine iff_of_true cutSafe_drained ?_
      by_cases hgot : newline ∈ got
      · exact (cleanAt_nextLine_iff hgot hlast).mp (cleanAt_of_nil (hc.rest hgot))
      · exact (cleanAt_unterminated_iff hgot).mpr (.inr (.inr rfl))
  | passed _ ih =>
      intro got lost hc
      by_cases hgot : newline ∈ got
      · exact cutSafe_iff_of_whole hgot hlast hc fun _ => ih
      · exact iff_of_true (cutSafe_passed hgot)
          ((cleanAt_unterminated_iff hgot).mpr (.inr (.inr rfl)))

end Clean

/-! ### Building careful programs -/

theorem careful_sendRead {i : Option Nat} {line : Text} {k : Text → Wire (Except RigError α)}
    (hi : i ≠ some 0) (hint : ¬ Discards (onLine k))
    (hk : ∀ line, Careful (i.map Nat.pred) (k line)) :
    Careful i (send line >>= fun _ => readLine >>= k) := by
  rw [send_bind, readLine_bind]
  exact .sends (.interprets hi hint hk)

/-- The reply channel changes nothing. -/
theorem Careful.map {i : Option Nat} {p : Wire (Except RigError α)}
    {g : Except RigError α → Except RigError β} (hg : Function.Injective g) (h : Careful i p) :
    Careful i (p >>= fun r => pure (g r)) := by
  induction h with
  | @done i res => cases res <;> exact .done
  | sends _ ih =>
      rw [ask_send_bind]
      exact .sends ih
  | @interprets i k hi hint _ ih =>
      rw [ask_readLine_bind]
      refine .interprets hi (fun hd => hint fun t t' ht ht' => bind_pure_injective hg ?_) ih
      change onLine k (.ok t) >>= _ = onLine k (.ok t') >>= _
      rw [onLine_bind, onLine_bind]
      exact hd t t' ht ht'
  | @drained res => cases res <;> exact .drained
  | passed _ ih =>
      rw [ask_readLine_bind]
      simp only [bind_assoc] at ih ⊢
      exact .passed ih

/-- A line that is handed on is interpreted: two error codes are told apart. -/
theorem not_discards {k : Text → Wire (Except RigError α)}
    (h : ∀ line code, parseRprt line = some code → code ≠ 0 →
      k line = .done (.ok (.error (.hamlib code)))) : ¬ Discards (onLine k) := by
  intro hd
  have heq := hd "RPRT 1".toList "RPRT 2".toList (by decide) (by decide)
  rw [onLine_ok (by decide), onLine_ok (by decide), h _ 1 (by decide) (by decide),
    h _ 2 (by decide) (by decide)] at heq
  cases heq

/-! ### The commands -/

/-- What `exec_get_freq` makes of the answer. -/
def freqOf (line : Text) : Except RigError UInt64 :=
  match parseRprt line with
  | some code => .error (.hamlib code)
  | none =>
      match parseU64 line with
      | some hz => .ok hz
      | none => .error (.badResponse line)

/-- What `exec_get_power` makes of the answer. -/
def powerOf (R : F32 F) (line : Text) : Except RigError F :=
  match parseRprt line with
  | some code => .error (.hamlib code)
  | none =>
      match R.parse line with
      | none => .error (.badResponse line)
      | some raw => if R.isFinite raw then .ok (R.clamp raw) else .error (.badResponse line)

theorem freqOf_code {line : Text} {code : Int} (h : parseRprt line = some code) :
    freqOf line = .error (.hamlib code) := by
  rw [freqOf, h]

theorem powerOf_code {R : F32 F} {line : Text} {code : Int} (h : parseRprt line = some code) :
    powerOf R line = .error (.hamlib code) := by
  rw [powerOf, h]

/-- Without an RPRT code there is a power, or the line is refused. -/
theorem powerOf_no_code {R : F32 F} {line : Text} (h : parseRprt line = none) :
    (∃ power, powerOf R line = .ok power) ∨ powerOf R line = .error (.badResponse line) := by
  rw [powerOf, h]
  cases R.parse line with
  | none => exact .inr rfl
  | some raw =>
      by_cases hfin : R.isFinite raw
      · exact .inl ⟨R.clamp raw, if_pos hfin⟩
      · exact .inr (if_neg hfin)

theorem parseSetResponse_code {answer : Text} {code : Int} (h : parseRprt answer = some code)
    (hne : code ≠ 0) : parseSetResponse answer = .error (.hamlib code) := by
  unfold parseSetResponse
  rw [h]
  split
  · rename_i hz
    exact absurd (Option.some.inj hz) hne
  · rename_i hz
    rw [Option.some.inj hz]
  · rename_i hz
    cases hz

theorem execGetFreq_bind (f : Except RigError UInt64 → Wire (Except RigError α)) :
    execGetFreq >>= f =
      send "f".toList >>= fun _ => readLine >>= fun line => f (freqOf line) := by
  simp only [execGetFreq, bind_assoc]
  refine congrArg _ (funext fun _ => congrArg _ (funext fun line => ?_))
  unfold freqOf
  cases parseRprt line with
  | some code => rfl
  | none => cases parseU64 line <;> rfl

theorem execGetMode_bind (f : Except RigError Text → Wire (Except RigError α)) :
    execGetMode >>= f = send "m".toList >>= fun _ => readLine >>= fun line =>
      match parseRprt line with
      | some code => f (.error (.hamlib code))
      | none =>
          if firstWord line = [] then .ask .readLine fun _ => f (.error (.badResponse line))
          else readLine >>= fun _ => f (.ok (firstWord line)) := by
  simp only [execGetMode, bind_assoc]
  refine congrArg _ (funext fun _ => congrArg _ (funext fun line => ?_))
  cases parseRprt line with
  | some code => rfl
  | none =>
      dsimp only
      split
      · rw [← attempt_readLine_bind]
        simp only [bind_assoc, pure_bind]
      · simp only [bind_assoc, pure_bind]

theorem execGetPower_bind (R : F32 F) (f : Except RigError F → Wire (Except RigError α)) :
    execGetPower R >>= f = send "\\get_level RFPOWER".toList >>= fun _ =>
      readLine >>= fun line => f (powerOf R line) := by
  simp only [execGetPower, bind_assoc]
  refine congrArg _ (funext fun _ => congrArg _ (funext fun line => ?_))
  unfold powerOf
  cases parseRprt line with
  | some code => rfl
  | none =>
      cases R.parse line with
      | none => rfl
      | some raw =>
          dsimp only
          split <;> rfl

theorem set_careful (line : Text) : Careful none
    (send line >>= fun _ => readLine >>= fun answer => pure (parseSetResponse answer)) := by
  refine careful_sendRead (by simp) (not_discards fun answer code hcode hne => ?_) fun _ => .done
  rw [parseSetResponse_code hcode hne]
  rfl

theorem execSetFreqMode_careful (hz : UInt64) (mode : HamlibMode) :
    Careful none (execSetFreqMode hz mode) := by
  refine careful_sendRead (by simp) (not_discards fun answer code hcode hne => ?_) fun answer => ?_
  · rw [parseSetResponse_code hcode hne]
    rfl
  · cases parseSetResponse answer with
    | error e => exact .done
    | ok _ => exact set_careful _

theorem execGetFreq_careful : Careful none execGetFreq := by
  rw [← bind_pure execGetFreq, execGetFreq_bind]
  refine careful_sendRead (by simp) (not_discards fun line code hcode _ => ?_) fun _ => .done
  rw [freqOf_code hcode]
  rfl

theorem execGetPower_careful (R : F32 F) : Careful none (execGetPower R) := by
  rw [← bind_pure (execGetPower R), execGetPower_bind]
  refine careful_sendRead (by simp) (not_discards fun line code hcode _ => ?_) fun _ => .done
  rw [powerOf_code hcode]
  rfl

/-- Of the answers to a poll the third line is thrown away, which is the passband. -/
theorem execPoll_careful (R : F32 F) : Careful (some 2) (execPoll R) := by
  rw [execPoll, execGetFreq_bind]
  refine careful_sendRead (by simp) (not_discards fun line code hcode _ => ?_) fun line => ?_
  · rw [freqOf_code hcode]
    rfl
  rcases freqOf line with e | freq
  · exact .done
  dsimp only
  rw [execGetMode_bind]
  refine careful_sendRead (by simp) (not_discards fun line code hcode _ => ?_) fun line => ?_
  · simp only [hcode]
    rfl
  rcases parseRprt line with _ | code
  · dsimp only
    split
    · exact .drained
    rw [readLine_bind, execGetPower_bind]
    refine .passed (careful_sendRead (by simp) (fun hd => ?_) fun line => ?_)
    · -- a power that is refused by code is no power, and one that is not is a power or an error
      have heq := hd "RPRT 1".toList "x".toList (by decide) (by decide)
      rw [onLine_ok (by decide), onLine_ok (by decide),
        powerOf_code (show parseRprt (trimLine "RPRT 1".toList) = some 1 by decide)] at heq
      have hx : parseRprt (trimLine "x".toList) = none := by decide
      rcases powerOf_no_code (R := R) hx with ⟨power, h⟩ | h
      · rw [h] at heq
        cases heq
      · rw [h] at heq
        cases heq
    · rcases powerOf R line with e | power
      · cases e <;> exact .done
      · exact .done
  · exact .done

/-! ### The mode, alone -/

/-- The line that a command throws away, counted from 0: the passband. -/
def passband : RigCommand → Option Nat
  | .getMode => some 1
  | .poll => some 2
  | _ => none

/-- The first line is text, and there is no word in it. -/
def BlankLine (got : Bytes) : Prop :=
  ∃ raw, fromUtf8 (nextLine got).1 = some raw ∧ firstWord (trimLine raw) = []

/-- The stream ends between two lines, inside a character, or inside the passband.  Where nothing
comes after the passband the line must be text, unless the mode is blank and its line refused. -/
def CleanCut (cmd : RigCommand) (got lost : Bytes) : Prop :=
  unfinished got = [] ∨ fromUtf8 (unfinished got) = none ∨
    passband cmd = some (got.count newline) ∧
      (cmd = .getMode →
        BlankLine got ∨ (fromUtf8 (unfinished got ++ (nextLine lost).1)).isSome)

section GetMode

variable {got lost : Bytes}

/-- A line is read and thrown away, and the result is `x`. -/
def skipLine (x : α) : Wire (Except RigError α) :=
  .ask .readLine (onLine fun _ => .done (.ok (.ok x)))

/-- A passband that is received whole. -/
theorem cutSafe_skipLine_whole {x : α} (hgot : newline ∈ got)
    (hc : Complete (skipLine x) (got ++ lost)) :
    CutSafe (skipLine x) got lost ∧ unfinished got = [] := by
  have hrest := hc.rest hgot
  rw [skipLine, cutSafe_whole_iff hgot, ← unfinished_nextLine hgot]
  rcases onLine_cases (fun _ => (.done (.ok (.ok x)) : Wire (Except RigError α)))
    (decoded (nextLine got).1) with ⟨line, -, hline⟩ | ⟨e, he⟩
  · rw [hline] at hrest ⊢
    exact ⟨cutSafe_done _, by rw [(List.append_eq_nil_iff.mp hrest).1]; rfl⟩
  · rw [he] at hrest ⊢
    exact ⟨cutSafe_done _, by rw [(List.append_eq_nil_iff.mp hrest).1]; rfl⟩

/-- A passband that is cut inside its text: the mode is the reply, and so it must be to the whole
response. -/
theorem cutSafe_skipLine_text {x : α} {t : Text} (hgot : newline ∉ got) (hne : got ≠ [])
    (ht : fromUtf8 got = some t) :
    CutSafe (skipLine x) got lost ↔ (fromUtf8 (got ++ (nextLine lost).1)).isSome := by
  have hserve : serve (skipLine x) (got ++ lost) =
      serve (onLine (fun _ => (.done (.ok (.ok x)) : Wire (Except RigError α)))
        (decoded (got ++ (nextLine lost).1))) (nextLine lost).2 := by
    rw [skipLine, serve, nextLine_append_unterminated hgot]
  have hread := onLine_unterminated (k := fun _ => (.done (.ok (.ok x)) :
    Wire (Except RigError α))) hgot hne ht
  constructor
  · intro h
    have hrun : StreamRun (skipLine x) got (.ok (.ok x)) := .read (by rw [hread]; exact .done)
    rcases h.reply _ hrun with hd | hd
    · cases hd
    · cases hwhole : fromUtf8 (got ++ (nextLine lost).1) with
      | some _ => rfl
      | none =>
          rw [hserve, decoded_none hwhole] at hd
          cases hd
  · intro hwhole
    obtain ⟨t', ht'⟩ := Option.isSome_iff_exists.mp hwhole
    refine ⟨fun res hres => ?_, fun _ _ _ _ => discards_const _, ?_⟩
    · rw [hserve, decoded_some ht',
        onLine_ok (text_ne_nil (List.append_ne_nil_of_left_ne_nil hne _) ht')]
      cases hres with
      | read hres =>
          rw [hread] at hres
          rw [hres.eq_of_done]
          exact .inr rfl
      | readFailed e hres => exact .inl (delivered_readFailed hres)
    · rw [hread]
      trivial

/-- **The passband, where nothing comes after it.** -/
theorem cutSafe_skipLine_iff {x : α} (hc : Complete (skipLine x) (got ++ lost)) :
    CutSafe (skipLine x) got lost ↔
      unfinished got = [] ∨ fromUtf8 (unfinished got) = none ∨
        got.count newline = 0 ∧ (fromUtf8 (unfinished got ++ (nextLine lost).1)).isSome := by
  by_cases hgot : newline ∈ got
  · obtain ⟨hsafe, hnil⟩ := cutSafe_skipLine_whole hgot hc
    exact iff_of_true hsafe (.inl hnil)
  rw [unfinished_unterminated hgot, List.count_eq_zero.mpr hgot]
  by_cases hbad : got = [] ∨ fromUtf8 got = none
  · exact iff_of_true (cutSafe_of_no_text hgot hbad) (hbad.imp_right .inl)
  obtain ⟨hne, htext⟩ := not_or.mp hbad
  obtain ⟨t, ht⟩ := Option.ne_none_iff_exists'.mp htext
  rw [cutSafe_skipLine_text hgot hne ht]
  simp [hne, htext]

theorem cleanCut_getMode_iff (hgot : newline ∈ got) :
    CleanCut .getMode got lost ↔ unfinished (nextLine got).2 = [] ∨
      fromUtf8 (unfinished (nextLine got).2) = none ∨ (nextLine got).2.count newline = 0 ∧
        (BlankLine got ∨ (fromUtf8 (unfinished (nextLine got).2 ++ (nextLine lost).1)).isSome) := by
  have hpass : passband .getMode = some ((nextLine got).2.count newline + 1) ↔
      (nextLine got).2.count newline = 0 := by
    rw [passband, Option.some.injEq]
    omega
  rw [CleanCut, unfinished_nextLine hgot, count_nextLine hgot, hpass]
  simp only [true_imp_iff]

theorem blankLine_iff {line : Text} (h : lineOf (decoded (nextLine got).1) = .ok line) :
    BlankLine got ↔ firstWord line = [] := by
  obtain ⟨raw, hraw, -, rfl⟩ := lineOf_ok h
  have htext : fromUtf8 (nextLine got).1 = some raw :=
    fromUtf8_eq_some_iff.mpr (decoded_ok hraw)
  rw [BlankLine, htext]
  exact ⟨fun ⟨_, he, hb⟩ => Option.some.inj he ▸ hb, fun hb => ⟨raw, rfl, hb⟩⟩

theorem getMode_cut_safe_iff (R : F32 F) (hc : Complete (handleCommand R .getMode) (got ++ lost)) :
    CutSafe (handleCommand R .getMode) got lost ↔ CleanCut .getMode got lost := by
  have hprog : handleCommand R .getMode = execGetMode >>= fun r => pure (r.map .mode) := rfl
  rw [hprog, execGetMode_bind, send_bind, readLine_bind] at hc ⊢
  rw [cutSafe_send_iff]
  change Complete (.ask .readLine (onLine _)) _ at hc
  by_cases hgot : newline ∈ got
  · have hrest := hc.rest hgot
    rw [cutSafe_whole_iff hgot, cleanCut_getMode_iff hgot]
    -- the answer is whole when the first line is refused
    have hdone : ∀ {res : Except IoError (Except RigError (Reply F))} {rest : Bytes} {P : Prop},
        Complete (.done res) (rest ++ lost) →
        (CutSafe (.done res) rest lost ↔ unfinished rest = [] ∨ P) := fun h =>
      iff_of_true (cutSafe_done _) (.inl (by rw [(List.append_eq_nil_iff.mp h).1]; rfl))
    rcases onLine_cases _ (decoded (nextLine got).1) with ⟨line, hline, hk⟩ | ⟨e, he⟩
    · rw [hk] at hrest ⊢
      rw [blankLine_iff hline]
      cases hcode : parseRprt line with
      | some code =>
          simp only [hcode] at hrest ⊢
          exact hdone hrest
      | none =>
          simp only [hcode] at hrest ⊢
          by_cases hword : firstWord line = []
          · rw [if_pos hword] at hrest ⊢
            refine (Careful.drained.cutSafe_iff hrest).trans ?_
            simp only [CleanAt, hword, true_or, and_true, Option.some.injEq, eq_comm (a := 0)]
          · rw [if_neg hword, readLine_bind] at hrest ⊢
            refine (cutSafe_skipLine_iff hrest).trans ?_
            simp only [hword, false_or]
    · rw [he] at hrest ⊢
      exact hdone hrest
  · rw [cutSafe_unterminated_iff hgot (not_discards fun line code hcode _ => ?_), CleanCut,
      unfinished_unterminated hgot, List.count_eq_zero.mpr hgot]
    · simp [passband]
    · simp only [hcode]
      rfl

end GetMode

/-! ### Every command -/

/-- **The cuts that are safe.**  Of a complete response to a command any part is received before the
stream ends.  That the reply is the right one or that the connection is lost, and that no line
without its newline is interpreted, is so exactly for a clean cut. -/
theorem cut_safe_iff (R : F32 F) (cmd : RigCommand) {got lost : Bytes}
    (hc : Complete (handleCommand R cmd) (got ++ lost)) :
    CutSafe (handleCommand R cmd) got lost ↔ CleanCut cmd got lost := by
  have hmap : ∀ {γ : Type} {f : γ → Reply F}, Function.Injective f →
      Function.Injective (Except.map f : Except RigError γ → _) := by
    rintro γ f hf (e | a) (e' | a') h
    · rw [Except.error.inj h]
    · cases h
    · cases h
    · rw [hf (Except.ok.inj h)]
  have hset : Function.Injective fun _ : Unit => (Reply.done : Reply F) := fun _ _ _ => rfl
  have hother : cmd ≠ .getMode → Careful (passband cmd) (handleCommand R cmd) →
      (CutSafe (handleCommand R cmd) got lost ↔ CleanCut cmd got lost) := fun hne h => by
    rw [h.cutSafe_iff hc, CleanAt, CleanCut]
    simp [hne]
  cases cmd with
  | getMode => exact getMode_cut_safe_iff R hc
  | getFreq => exact hother (by simp) (execGetFreq_careful.map (hmap fun _ _ => Reply.freq.inj))
  | getPower =>
      exact hother (by simp) ((execGetPower_careful R).map (hmap fun _ _ => Reply.power.inj))
  | poll => exact hother (by simp) ((execPoll_careful R).map (hmap fun _ _ => Reply.state.inj))
  | setFreq hz => exact hother (by simp) ((set_careful _).map (hmap hset))
  | setMode mode => exact hother (by simp) ((set_careful _).map (hmap hset))
  | setFreqMode hz mode =>
      exact hother (by simp) ((execSetFreqMode_careful hz mode).map (hmap hset))

/-! ### A frequency -/

theorem handleCommand_getFreq (R : F32 F) : handleCommand R .getFreq =
    .ask (.send "f".toList) (onSent (.ask .readLine
      (onLine fun line => .done (.ok ((freqOf line).map .freq))))) := by
  have hprog : handleCommand R .getFreq = execGetFreq >>= fun r => pure (r.map .freq) := rfl
  rw [hprog, execGetFreq_bind, send_bind, readLine_bind]
  rfl

/-- A response of one line is complete. -/
theorem complete_getFreq (R : F32 F) {line : Text}
    (h : nextLine (utf8 line) = (utf8 line, [])) (hnl : newline ∈ utf8 line) :
    Complete (handleCommand R .getFreq) (utf8 line) := by
  rw [handleCommand_getFreq, Complete, onSent, Complete, h, decoded_some (fromUtf8_utf8 _)]
  refine ⟨hnl, ?_⟩
  rcases onLine_cases (fun line => (.done (.ok ((freqOf line).map .freq)) :
    Wire (Except RigError (Reply F)))) (.ok line) with ⟨l, -, hl⟩ | ⟨e, he⟩
  · rw [hl]
    rfl
  · rw [he]
    rfl

theorem cut_safe_iff_getFreq :
    CutSafe (handleCommand wholePower .getFreq) (utf8 "14074000\n".toList) [] ∧
      ¬ CutSafe (handleCommand wholePower .getFreq) (utf8 "1407".toList)
        (utf8 "4000\n".toList) := by
  have hc : Complete (handleCommand wholePower .getFreq) (utf8 "14074000\n".toList) :=
    complete_getFreq wholePower (by decide) (by decide)
  have hsplit : utf8 "14074000\n".toList = utf8 "1407".toList ++ utf8 "4000\n".toList := by decide
  refine ⟨(cut_safe_iff wholePower .getFreq (by rwa [List.append_nil])).mpr (.inl (by decide)), ?_⟩
  intro h
  rcases (cut_safe_iff wholePower .getFreq (hsplit ▸ hc)).mp h with h | h | ⟨h, -⟩
  · exact absurd h (by decide)
  · rw [show unfinished (utf8 "1407".toList) = utf8 "1407".toList by decide, fromUtf8_utf8] at h
    cases h
  · cases h

/-- 14074 kHz, cut after four digits, is 1407 Hz. -/
theorem truncated_frequency :
    let got := utf8 "1407".toList
    let lost := utf8 "4000\n".toList
    Complete (handleCommand wholePower .getFreq) (got ++ lost) ∧
      serve (handleCommand wholePower .getFreq) (got ++ lost) = .ok (.ok (.freq 14074000)) ∧
      StreamRun (handleCommand wholePower .getFreq) got (.ok (.ok (.freq 1407))) ∧
      ¬ CutSafe (handleCommand wholePower .getFreq) got lost := by
  intro got lost
  have hwhole : got ++ lost = utf8 "14074000\n".toList := by decide
  have hserve : serve (handleCommand wholePower .getFreq) (got ++ lost) =
      .ok (.ok (.freq 14074000)) := by
    rw [hwhole, handleCommand_getFreq, serve, onSent, serve,
      show nextLine (utf8 "14074000\n".toList) = (utf8 "14074000\n".toList, []) by decide,
      decoded_some (fromUtf8_utf8 _)]
    decide
  have hrun : StreamRun (handleCommand wholePower .getFreq) got (.ok (.ok (.freq 1407))) := by
    rw [handleCommand_getFreq]
    refine .sent (.read ?_)
    rw [show nextLine got = (utf8 "1407".toList, []) by decide, decoded_some (fromUtf8_utf8 _)]
    exact .done
  refine ⟨hwhole ▸ complete_getFreq wholePower (by decide) (by decide), hserve, hrun, fun h => ?_⟩
  rcases h.reply _ hrun with hd | hd
  · cases hd
  · rw [hserve] at hd
    cases hd

end WavelogRelay.Rig
