import WavelogRelay.Rig.Cut

/-!
# Rig — what a `set_freq_mode` says on its connection

* `SetTalk f m es out`: `es` is what the command has said, with the lines `f` and `m`, and `out`
  is whether it has ended well, if it has ended.
* `talk_setFreqMode`: each talk of the command is one of these, whatever the server answers.
* `SetTalk.lines`, `SetTalk.onWire`, `SetTalk.ended_iff`: its lines, its bytes, and when it ends
  well.
-/

namespace WavelogRelay.Rig
open Library Dialogue

/-- The answer is an RPRT line with code 0. -/
def Zeroed (a : Except IoError Text) : Prop :=
  ∃ line, lineOf a = .ok line ∧ parseRprt line = some 0

inductive SetTalk (f m : Text) : List WireEvent → Option Bool → Prop where
  | start : SetTalk f m [] none
  | freqUnsent (e : IoError) : SetTalk f m [⟨.send f, .error e⟩] (some false)
  | freqSent : SetTalk f m [⟨.send f, .ok ()⟩] none
  | freqRefused {a : Except IoError Text} (h : ¬ Zeroed a) :
      SetTalk f m [⟨.send f, .ok ()⟩, ⟨.readLine, a⟩] (some false)
  | freqSet {a : Except IoError Text} (h : Zeroed a) :
      SetTalk f m [⟨.send f, .ok ()⟩, ⟨.readLine, a⟩] none
  | modeUnsent {a : Except IoError Text} (h : Zeroed a) (e : IoError) :
      SetTalk f m [⟨.send f, .ok ()⟩, ⟨.readLine, a⟩, ⟨.send m, .error e⟩] (some false)
  | modeSent {a : Except IoError Text} (h : Zeroed a) :
      SetTalk f m [⟨.send f, .ok ()⟩, ⟨.readLine, a⟩, ⟨.send m, .ok ()⟩] none
  | modeRefused {a b : Except IoError Text} (h : Zeroed a) (h' : ¬ Zeroed b) :
      SetTalk f m [⟨.send f, .ok ()⟩, ⟨.readLine, a⟩, ⟨.send m, .ok ()⟩, ⟨.readLine, b⟩]
        (some false)
  | both {a b : Except IoError Text} (h : Zeroed a) (h' : Zeroed b) :
      SetTalk f m [⟨.send f, .ok ()⟩, ⟨.readLine, a⟩, ⟨.send m, .ok ()⟩, ⟨.readLine, b⟩]
        (some true)

/-- Both lines are written, and each is answered by an RPRT line with code 0. -/
def BothAcknowledged (f m : Text) (es : List WireEvent) : Prop :=
  ∃ a b, Zeroed a ∧ Zeroed b ∧
    es = [⟨.send f, .ok ()⟩, ⟨.readLine, a⟩, ⟨.send m, .ok ()⟩, ⟨.readLine, b⟩]

/-- The bytes that a talk has put on the wire: a line that is sent is followed by a newline, and
of one that fails some part may have been sent. -/
inductive OnWire : List WireEvent → Bytes → Prop where
  | nil : OnWire [] []
  | sent {line : Text} {es : List WireEvent} {b : Bytes} (h : OnWire es b) :
      OnWire (⟨.send line, .ok ()⟩ :: es) (utf8 (line ++ ['\n']) ++ b)
  | sendFailed {line : Text} {e : IoError} {es : List WireEvent} {p b : Bytes}
      (hp : p <+: utf8 (line ++ ['\n'])) (h : OnWire es b) :
      OnWire (⟨.send line, .error e⟩ :: es) (p ++ b)
  | read {a : Except IoError Text} {es : List WireEvent} {b : Bytes} (h : OnWire es b) :
      OnWire (⟨.readLine, a⟩ :: es) b

/-! ### The shapes of a talk -/

namespace SetTalk

variable {f m : Text} {es : List WireEvent} {out : Option Bool}

theorem lines (h : SetTalk f m es out) :
    written es = [] ∨ written es = [f] ∨ written es = [f, m] := by
  cases h with
  | start => exact .inl rfl
  | freqUnsent | freqSent | freqRefused | freqSet => exact .inr (.inl rfl)
  | modeUnsent | modeSent | modeRefused | both => exact .inr (.inr rfl)

/-- Before the first line, and after it. -/
theorem onWire_first {p : Bytes} (hp : p <+: utf8 (f ++ ['\n'])) :
    p <+: utf8 (f ++ '\n' :: (m ++ ['\n'])) := by
  have hsplit : utf8 (f ++ '\n' :: (m ++ ['\n'])) = utf8 (f ++ ['\n']) ++ utf8 (m ++ ['\n']) := by
    simp
  rw [hsplit]
  exact hp.trans (List.prefix_append _ _)

/-- Before the second line, and after it. -/
theorem onWire_second {p : Bytes} (hp : p <+: utf8 (m ++ ['\n'])) :
    utf8 (f ++ ['\n']) ++ p <+: utf8 (f ++ '\n' :: (m ++ ['\n'])) := by
  have hsplit : utf8 (f ++ '\n' :: (m ++ ['\n'])) = utf8 (f ++ ['\n']) ++ utf8 (m ++ ['\n']) := by
    simp
  rw [hsplit]
  exact (List.prefix_append_right_inj _).mpr hp

/-- **The bytes on the wire** are a first part of the two lines, each with its newline. -/
theorem onWire (h : SetTalk f m es out) {b : Bytes} (hb : OnWire es b) :
    b <+: utf8 (f ++ '\n' :: (m ++ ['\n'])) := by
  cases h with
  | start =>
      cases hb
      exact List.nil_prefix
  | freqUnsent =>
      obtain _ | _ | ⟨hp, _ | _⟩ := hb
      simpa using onWire_first hp
  | freqSent =>
      obtain _ | ⟨_ | _⟩ := hb
      simp
  | freqRefused | freqSet =>
      obtain _ | ⟨_ | _ | _ | ⟨_ | _⟩⟩ := hb
      simp
  | modeUnsent =>
      obtain _ | ⟨_ | _ | _ | ⟨_ | _ | ⟨hp, _ | _⟩⟩⟩ := hb
      simpa using onWire_second (f := f) hp
  | modeSent =>
      obtain _ | ⟨_ | _ | _ | ⟨_ | ⟨_ | _⟩⟩⟩ := hb
      simp
  | modeRefused | both =>
      obtain _ | ⟨_ | _ | _ | ⟨_ | ⟨_ | _ | _ | ⟨_ | _⟩⟩⟩⟩ := hb
      simp

/-- **It ends well exactly when both lines are acknowledged.** -/
theorem ended_iff {well : Bool} (h : SetTalk f m es (some well)) :
    well = true ↔ BothAcknowledged f m es := by
  constructor
  · rintro rfl
    cases h with
    | both ha hb => exact ⟨_, _, ha, hb, rfl⟩
  · rintro ⟨a, b, ha, hb, rfl⟩
    cases h with
    | modeRefused _ hb' => exact absurd hb hb'
    | both => rfl

end SetTalk

/-! ### The command -/

variable {F : Type}

/-- Whether what is left of a command has ended well, if it has ended. -/
def ending : Wire (Except RigError (Reply F)) → Option Bool
  | .done (.ok (.ok _)) => some true
  | .done _ => some false
  | .ask .. => none

theorem zeroed_iff {a : Except IoError Text} {line : Text} (h : lineOf a = .ok line) :
    Zeroed a ↔ parseSetResponse line = .ok () := by
  constructor
  · rintro ⟨line', h', hz⟩
    obtain rfl := Except.ok.inj (h.symm.trans h')
    rw [parseSetResponse, hz]
    rfl
  · exact fun hp => ⟨line, h, parseRprt_of_parseSetResponse hp⟩

theorem not_zeroed_of_error {a : Except IoError Text} {e : IoError} (h : lineOf a = .error e) :
    ¬ Zeroed a := by
  rintro ⟨line, h', -⟩
  cases h.symm.trans h'

theorem not_zeroed_of_refused {a : Except IoError Text} {line : Text} {e : RigError}
    (h : lineOf a = .ok line) (hp : parseSetResponse line = .error e) : ¬ Zeroed a := by
  rw [zeroed_iff h, hp]
  exact fun h => by cases h

/-- A line is sent and its answer read: how far a talk has got. -/
theorem talk_exchange {α : Type} {line : Text} {k : Text → Wire α} {es : List WireEvent}
    {rest : Wire α} (h : Talk (send line >>= fun _ => readLine >>= k) es rest) :
    (es = [] ∧ rest = .ask (.send line) (onSent (readLine >>= k))) ∨
    (∃ e, es = [⟨.send line, .error e⟩] ∧ rest = .done (.error e)) ∨
    (es = [⟨.send line, .ok ()⟩] ∧ rest = .ask .readLine (onLine k)) ∨
    ∃ a es', es = ⟨.send line, .ok ()⟩ :: ⟨.readLine, a⟩ :: es' ∧ Talk (onLine k a) es' rest := by
  rw [send_bind] at h
  rcases h.ask_cases with ⟨rfl, rfl⟩ | ⟨a, es, rfl, hsent⟩
  · exact .inl ⟨rfl, rfl⟩
  cases a with
  | error e =>
      obtain ⟨rfl, rfl⟩ := hsent.done_cases
      exact .inr (.inl ⟨e, rfl, rfl⟩)
  | ok _ =>
      change Talk (readLine >>= k) es rest at hsent
      rw [readLine_bind] at hsent
      rcases hsent.ask_cases with ⟨rfl, rfl⟩ | ⟨a, es, rfl, hread⟩
      · exact .inr (.inr (.inl ⟨rfl, rfl⟩))
      · exact .inr (.inr (.inr ⟨a, es, rfl, hread⟩))

theorem handleCommand_setFreqMode (R : F32 F) (hz : UInt64) (mode : HamlibMode) :
    handleCommand R (.setFreqMode hz mode) =
      send (setFreqLine hz) >>= fun _ => readLine >>= fun line =>
        match parseSetResponse line with
        | .error e => pure (.error e)
        | .ok () => send (setModeLine mode) >>= fun _ => readLine >>= fun line =>
            pure ((parseSetResponse line).map fun _ => .done) := by
  simp only [handleCommand, execSetFreqMode, bind_assoc]
  refine congrArg _ (funext fun _ => congrArg _ (funext fun line => ?_))
  cases parseSetResponse line with
  | error e => rfl
  | ok _ => simp only [bind_assoc, pure_bind]

/-- The second half of a talk, once the frequency is set. -/
theorem talk_second {f m : Text} {a : Except IoError Text} (hset : Zeroed a)
    {es : List WireEvent} {rest : Wire (Except RigError (Reply F))}
    (h : Talk (send m >>= fun _ => readLine >>= fun line =>
      pure ((parseSetResponse line).map fun _ => .done)) es rest) :
    SetTalk f m (⟨.send f, .ok ()⟩ :: ⟨.readLine, a⟩ :: es) (ending rest) := by
  rcases talk_exchange h with ⟨rfl, rfl⟩ | ⟨e, rfl, rfl⟩ | ⟨rfl, rfl⟩ | ⟨b, es, rfl, hmode⟩
  · exact .freqSet hset
  · exact .modeUnsent hset e
  · exact .modeSent hset
  rw [onLine] at hmode
  cases hline : lineOf b with
  | error e =>
      rw [hline] at hmode
      obtain ⟨rfl, rfl⟩ := hmode.done_cases
      exact .modeRefused hset (not_zeroed_of_error hline)
  | ok line =>
      rw [hline] at hmode
      obtain ⟨rfl, rfl⟩ := hmode.done_cases
      cases hp : parseSetResponse line with
      | error e => exact .modeRefused hset (not_zeroed_of_refused hline hp)
      | ok _ => exact .both hset ((zeroed_iff hline).mpr hp)

/-- **Each talk of a `set_freq_mode`**, whatever the server answers. -/
theorem talk_setFreqMode {R : F32 F} {hz : UInt64} {mode : HamlibMode} {es : List WireEvent}
    {rest : Wire (Except RigError (Reply F))}
    (h : Talk (handleCommand R (.setFreqMode hz mode)) es rest) :
    SetTalk (setFreqLine hz) (setModeLine mode) es (ending rest) := by
  rw [handleCommand_setFreqMode] at h
  rcases talk_exchange h with ⟨rfl, rfl⟩ | ⟨e, rfl, rfl⟩ | ⟨rfl, rfl⟩ | ⟨a, es, rfl, hfreq⟩
  · exact .start
  · exact .freqUnsent e
  · exact .freqSent
  rw [onLine] at hfreq
  cases hline : lineOf a with
  | error e =>
      rw [hline] at hfreq
      obtain ⟨rfl, rfl⟩ := hfreq.done_cases
      exact .freqRefused (not_zeroed_of_error hline)
  | ok line =>
      rw [hline] at hfreq
      cases hp : parseSetResponse line with
      | error e =>
          simp only [hp] at hfreq
          obtain ⟨rfl, rfl⟩ := hfreq.done_cases
          exact .freqRefused (not_zeroed_of_refused hline hp)
      | ok _ =>
          have hset : Zeroed a := (zeroed_iff hline).mpr hp
          simp only [hp] at hfreq
          exact talk_second hset hfreq

end WavelogRelay.Rig
