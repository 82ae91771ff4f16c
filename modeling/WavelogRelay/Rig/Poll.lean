import WavelogRelay.Rig.Exchange

/-!
# Rig — what a poll says on its connection

* `Said R state es`: in `es` the server has been asked for the frequency, the mode and RFPOWER, and
  `state` is what its answers say.
* `said_of_talk`: each talk of a poll that ends with a state is one of these.
-/

namespace WavelogRelay.Rig
open Library Dialogue

variable {F : Type}

/-- What the answer to the frequency says. -/
def FreqSaid (freq : UInt64) (answer : Text) : Prop :=
  parseRprt answer = none ∧ parseU64 answer = some freq

/-- A mode is never empty. -/
def ModeSaid (mode : Text) (answer : Text) : Prop :=
  parseRprt answer = none ∧ firstWord answer = mode ∧ mode ≠ []

/-- A server that answers RFPOWER with an error code has no power to tell. -/
def PowerSaid (R : F32 F) (power : Option F) (answer : Text) : Prop :=
  (∃ code, parseRprt answer = some code ∧ power = none) ∨
    parseRprt answer = none ∧
      ∃ x, R.parse answer = some x ∧ R.isFinite x = true ∧ power = some (R.clamp x)

/-- Three lines are written, and `state` is what is read: the line after the one with the mode is
the passband. -/
def Said (R : F32 F) (state : RigState F) (es : List WireEvent) : Prop :=
  ∃ freq mode passband power,
    es = [⟨.send "f".toList, .ok ()⟩, ⟨.readLine, .ok freq⟩, ⟨.send "m".toList, .ok ()⟩,
      ⟨.readLine, .ok mode⟩, ⟨.readLine, .ok passband⟩,
      ⟨.send "\\get_level RFPOWER".toList, .ok ()⟩, ⟨.readLine, .ok power⟩] ∧
    FreqSaid state.freq (trimLine freq) ∧ ModeSaid state.mode (trimLine mode) ∧
      PowerSaid R state.power (trimLine power)

section Logged

variable {es : List WireEvent}

/-- Nothing is asked of the questions. -/
def AnyAsk (_ : List WireEvent) (_ : Ask) : Prop := True

/-- What a program has said since `es` when it ends with a value. -/
def Ends {α : Type} (said : α → List WireEvent → Prop) (es : List WireEvent) :
    Except IoError (Except RigError α) → List WireEvent → Prop
  | .ok (.ok v), es' => ∃ more, es' = es ++ more ∧ said v more
  | _, _ => True

theorem execGetFreq_ends : wp logged AnyAsk (Ends (fun freq more => ∃ raw,
    more = [⟨.send "f".toList, .ok ()⟩, ⟨.readLine, .ok raw⟩] ∧ FreqSaid freq (trimLine raw)) es)
    execGetFreq es := by
  refine wp_sendRead trivial (fun _ => trivial) (fun _ => trivial) (fun _ _ _ => trivial)
    fun raw _ => ?_
  cases hrp : parseRprt (trimLine raw) with
  | some code => trivial
  | none =>
      cases hp : parseU64 (trimLine raw) with
      | some hz => exact ⟨_, rfl, raw, rfl, hrp, hp⟩
      | none => trivial

theorem execGetMode_ends : wp logged AnyAsk (Ends (fun mode more => ∃ raw passband,
    more = [⟨.send "m".toList, .ok ()⟩, ⟨.readLine, .ok raw⟩, ⟨.readLine, .ok passband⟩] ∧
      ModeSaid mode (trimLine raw)) es) execGetMode es := by
  refine wp_sendRead trivial (fun _ => trivial) (fun _ => trivial) (fun _ _ _ => trivial)
    fun raw _ => ?_
  cases hrp : parseRprt (trimLine raw) with
  | some code => trivial
  | none =>
      by_cases htok : firstWord (trimLine raw) = []
      · simp only [htok, if_true]
        exact wp_bind (wp_attempt (wp_readLine.mpr ⟨trivial, fun _ _ _ => trivial⟩))
      · simp only [htok, if_false]
        refine wp_bind (wp_readLine.mpr ⟨trivial, ?_⟩)
        rintro a _ rfl
        cases ha : lineOf a with
        | error io => trivial
        | ok l =>
            obtain ⟨passband, rfl, -, -⟩ := lineOf_ok ha
            exact ⟨_, List.append_assoc _ _ _, raw, passband, rfl, hrp, rfl, htok⟩

/-- An error code for RFPOWER is told apart from the other errors. -/
def PowerEnds (R : F32 F) (es : List WireEvent) :
    Except IoError (Except RigError F) → List WireEvent → Prop
  | .ok (.ok x), es' => ∃ raw,
      es' = es ++ [⟨.send "\\get_level RFPOWER".toList, .ok ()⟩, ⟨.readLine, .ok raw⟩] ∧
        PowerSaid R (some x) (trimLine raw)
  | .ok (.error (.hamlib _)), es' => ∃ raw,
      es' = es ++ [⟨.send "\\get_level RFPOWER".toList, .ok ()⟩, ⟨.readLine, .ok raw⟩] ∧
        PowerSaid R none (trimLine raw)
  | _, _ => True

theorem execGetPower_ends {R : F32 F} :
    wp logged AnyAsk (PowerEnds R es) (execGetPower R) es := by
  refine wp_sendRead trivial (fun _ => trivial) (fun _ => trivial) (fun _ _ _ => trivial)
    fun raw _ => ?_
  cases hrp : parseRprt (trimLine raw) with
  | some code => exact ⟨raw, rfl, .inl ⟨code, hrp, rfl⟩⟩
  | none =>
      cases hp : R.parse (trimLine raw) with
      | none => trivial
      | some x =>
          dsimp only
          split
          · rename_i hfin
            exact ⟨raw, rfl, .inr ⟨hrp, x, hp, hfin, rfl⟩⟩
          · trivial

end Logged

theorem execPoll_ends {R : F32 F} : wp logged AnyAsk (Ends (Said R) []) (execPoll R) [] := by
  refine wp_bind (wp_mono (fun res es hres => ?_) execGetFreq_ends)
  rcases res with e | e | freq
  · trivial
  · trivial
  obtain ⟨_, rfl, rawFreq, rfl, hfreq⟩ := hres
  refine wp_bind (wp_mono (fun res es hres => ?_) execGetMode_ends)
  rcases res with e | e | mode
  · trivial
  · trivial
  obtain ⟨_, rfl, rawMode, passband, rfl, hmode⟩ := hres
  refine wp_bind (wp_mono (fun res es hres => ?_) execGetPower_ends)
  rcases res with e | e | power
  · trivial
  · cases e with
    | hamlib code =>
        obtain ⟨rawPower, rfl, hpower⟩ := hres
        exact ⟨_, rfl, rawFreq, rawMode, passband, rawPower, rfl, hfreq, hmode, hpower⟩
    | disconnected | badResponse => trivial
  · obtain ⟨rawPower, rfl, hpower⟩ := hres
    exact ⟨_, rfl, rawFreq, rawMode, passband, rawPower, rfl, hfreq, hmode, hpower⟩

/-- What a poll replies. -/
theorem handleCommand_poll_ends {R : F32 F} : wp logged AnyAsk
    (Ends (fun reply es => ∃ state, reply = .state state ∧ Said R state es) [])
    (handleCommand R .poll) [] := by
  refine wp_bind (wp_mono (fun res es hres => ?_) execPoll_ends)
  rcases res with e | e | state
  · trivial
  · trivial
  · obtain ⟨more, hmore, hsaid⟩ := hres
    exact ⟨more, hmore, state, rfl, hsaid⟩

/-- **A poll that ends with a reply** ends with the state that the server has told. -/
theorem said_of_talk {R : F32 F} {es : List WireEvent} {reply : Reply F}
    (h : Talk (handleCommand R .poll) es (.done (.ok (.ok reply)))) :
    ∃ state, reply = .state state ∧ Said R state es := by
  have hends := (h.keeps (P := fun _ => True) (fun _ _ _ => trivial) handleCommand_poll_ends
    trivial).2
  obtain ⟨more, hmore, hsaid⟩ := hends
  rw [List.nil_append, List.nil_append] at hmore
  exact hmore ▸ hsaid

end WavelogRelay.Rig
