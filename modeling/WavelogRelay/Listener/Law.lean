import WavelogRelay.Listener.Tune
import WavelogRelay.Rig.SetFreqMode

/-!
# Listener — what a click-to-tune request can make the relay write

`Lawful state req stage es` ties a request to what is written for it, to the answers of the rig and
to the status it is answered with.

* `tune_spec`: the checks of the handler, and what it asks of the rig.
* `Handled`: what a stage says about its request; `Handled.step` keeps it.
* `tune_lawful`: every request is lawful, in every run of any number of handlers beside the other
  clients of the rig.
-/

namespace WavelogRelay.Listener
open Library Dialogue Rig Modes

/-! ### The law -/

/-- The first `Origin` header is present and differs from the allowed origin. -/
def Mismatched (state : AppState) (req : Request) : Prop :=
  ∃ origin rest, req.origins = origin :: rest ∧ origin ≠ state.allowOrigin

/-- The segments of a request are a frequency and the name of a mode. -/
def Asks (req : Request) (freq : UInt64) (mode : Mode) : Prop :=
  parseU64 req.freqSegment = some freq ∧ req.modeSegment = mode.name

/-- One of the segments is invalid. -/
def Invalid (req : Request) : Prop :=
  parseU64 req.freqSegment = none ∨ ∀ mode : Mode, req.modeSegment ≠ mode.name

/-- The line for the mode of a request. -/
def modeLine (state : AppState) (mode : Mode) : Text := setModeLine (mode.resolve state.overrides)

/-- Both command lines of a request are written, and each is answered by an RPRT line with
code 0. -/
def Tuned (state : AppState) (req : Request) (es : List WireEvent) : Prop :=
  ∃ freq mode, Asks req freq mode ∧ BothAcknowledged (setFreqLine freq) (modeLine state mode) es

/-- **The law of a request**: `es` is what is said for it on the wire, and `status?` its answer. -/
structure Lawful (state : AppState) (req : Request) (status? : Option StatusCode)
    (es : List WireEvent) : Prop where
  /-- No line is written, or `F <n>`, or `F <n>` and `M <name> -1`. -/
  lines : written es = [] ∨ ∃ freq mode, Asks req freq mode ∧
    (written es = [setFreqLine freq] ∨ written es = [setFreqLine freq, modeLine state mode])
  /-- None of them has a second line in it. -/
  single : ∀ line ∈ written es, '\n' ∉ line
  /-- The bytes on the wire are a first part of these lines, each with its newline. -/
  bytes : ∀ b, OnWire es b → b = [] ∨ ∃ freq mode, Asks req freq mode ∧
    b <+: utf8 (setFreqLine freq ++ '\n' :: (modeLine state mode ++ ['\n']))
  silent : Mismatched state req ∨ Invalid req → es = []
  ok : ∀ status ∈ status?, status = .ok ↔ Tuned state req es
  forbidden : ∀ status ∈ status?, status = .forbidden ↔ Mismatched state req
  badRequest : ∀ status ∈ status?, status = .badRequest ↔
    ¬ Mismatched state req ∧ Invalid req
  badGateway : ∀ status ∈ status?, status = .badGateway ↔
    ¬ Mismatched state req ∧ ¬ Invalid req ∧ ¬ Tuned state req es

/-! ### The checks -/

variable {state : AppState} {req : Request}

theorem mismatched_iff :
    Mismatched state req ↔ req.origins.head?.any (· != state.allowOrigin) = true := by
  rcases h : req.origins with _ | ⟨origin, rest⟩
  · simp [Mismatched, h]
  · simp [Mismatched, h]

/-- **What `tune` makes of a request.** -/
theorem tune_spec (state : AppState) (req : Request) :
    Mismatched state req ∧ tune state req = .error .forbidden ∨
    ¬ Mismatched state req ∧ Invalid req ∧ tune state req = .error .badRequest ∨
    ¬ Mismatched state req ∧ ∃ freq mode, Asks req freq mode ∧
      tune state req = .ok (freq, mode.resolve state.overrides) := by
  by_cases hm : Mismatched state req
  · exact .inl ⟨hm, by rw [tune, if_pos (mismatched_iff.mp hm)]⟩
  have hpass := mismatched_iff.not.mp hm
  cases hf : parseU64 req.freqSegment with
  | none => exact .inr (.inl ⟨hm, .inl hf, by rw [tune, if_neg hpass, hf]⟩)
  | some freq =>
      cases hmode : Mode.fromStr req.modeSegment with
      | error e =>
          refine .inr (.inl ⟨hm, .inr fun mode h => ?_, ?_⟩)
          · rw [h, mode.fromStr_name] at hmode
            cases hmode
          · rw [tune, if_neg hpass, hf]
            simp only [hmode]
      | ok mode =>
          refine .inr (.inr ⟨hm, freq, mode, ⟨hf, Mode.fromStr_eq_ok_iff.mp hmode⟩, ?_⟩)
          rw [tune, if_neg hpass, hf]
          simp only [hmode]

theorem Asks.not_invalid {freq : UInt64} {mode : Mode} (h : Asks req freq mode) :
    ¬ Invalid req := by
  rintro (hf | hm)
  · cases hf.symm.trans h.1
  · exact hm mode h.2

/-- The segments name one frequency and one mode. -/
theorem Asks.unique {freq freq' : UInt64} {mode mode' : Mode} (h : Asks req freq mode)
    (h' : Asks req freq' mode') : freq = freq' ∧ mode = mode' := by
  refine ⟨Option.some.inj (h.1.symm.trans h'.1), ?_⟩
  have hname : mode.name = mode'.name := h.2.symm.trans h'.2
  have hread := mode.fromStr_name
  rw [hname, mode'.fromStr_name] at hread
  exact (Except.ok.inj hread).symm

theorem Asks.tuned_iff {freq : UInt64} {mode : Mode} (h : Asks req freq mode)
    (es : List WireEvent) :
    Tuned state req es ↔ BothAcknowledged (setFreqLine freq) (modeLine state mode) es := by
  constructor
  · rintro ⟨freq', mode', h', hack⟩
    obtain ⟨rfl, rfl⟩ := h.unique h'
    exact hack
  · exact fun hack => ⟨freq, mode, h, hack⟩

theorem not_tuned_nil : ¬ Tuned state req [] := by
  rintro ⟨_, _, _, _, _, _, _, h⟩
  cases h

theorem single_setFreqLine (freq : UInt64) : '\n' ∉ setFreqLine freq := by
  have hdigits := not_mem_decimal (c := '\n') (by decide) freq.toNat
  simp [setFreqLine, hdigits]

theorem single_setModeLine (mode : HamlibMode) : '\n' ∉ setModeLine mode := by
  cases mode <;> decide

/-! ### Requests without a command, and with one -/

/-- The status of a request that `tune` refuses. -/
theorem refusal_cases {status : StatusCode} (h : tune state req = .error status) :
    status = .forbidden ∧ Mismatched state req ∨
      status = .badRequest ∧ ¬ Mismatched state req ∧ Invalid req := by
  rcases tune_spec state req with ⟨hm, h'⟩ | ⟨hm, hi, h'⟩ | ⟨-, _, _, -, h'⟩
  · cases h.symm.trans h'
    exact .inl ⟨rfl, hm⟩
  · cases h.symm.trans h'
    exact .inr ⟨rfl, hm, hi⟩
  · cases h.symm.trans h'

/-- A request for which nothing is asked of the rig, answered with what `tune` says, if at all. -/
theorem lawful_silent {status? : Option StatusCode}
    (h : ∀ status ∈ status?, tune state req = .error status) : Lawful state req status? [] where
  lines := .inl rfl
  single _ h := by cases h
  bytes b hb := by
    cases hb
    exact .inl rfl
  silent _ := rfl
  ok status hs := by
    refine iff_of_false ?_ not_tuned_nil
    rcases refusal_cases (h status hs) with ⟨rfl, -⟩ | ⟨rfl, -, -⟩
    · exact fun e => by cases e
    · exact fun e => by cases e
  forbidden status hs := by
    rcases refusal_cases (h status hs) with ⟨rfl, hm⟩ | ⟨rfl, hm, -⟩
    · exact iff_of_true rfl hm
    · exact iff_of_false (fun e => by cases e) hm
  badRequest status hs := by
    rcases refusal_cases (h status hs) with ⟨rfl, hm⟩ | ⟨rfl, hm, hi⟩
    · exact iff_of_false (fun e => by cases e) fun h => h.1 hm
    · exact iff_of_true rfl ⟨hm, hi⟩
  badGateway status hs := by
    rcases refusal_cases (h status hs) with ⟨rfl, hm⟩ | ⟨rfl, -, hi⟩
    · exact iff_of_false (fun e => by cases e) fun h => h.1 hm
    · exact iff_of_false (fun e => by cases e) fun h => h.2.1 hi

/-- A request that asks for a frequency and a mode, whose command has said `es`. -/
theorem lawful_talk {status? : Option StatusCode} {freq : UInt64} {mode : Mode}
    {es : List WireEvent} {out : Option Bool} (hm : ¬ Mismatched state req)
    (ha : Asks req freq mode) (ht : SetTalk (setFreqLine freq) (modeLine state mode) es out)
    (hs : ∀ status ∈ status?,
      (status = .ok ∧ BothAcknowledged (setFreqLine freq) (modeLine state mode) es) ∨
        status = .badGateway ∧ ¬ BothAcknowledged (setFreqLine freq) (modeLine state mode) es) :
    Lawful state req status? es where
  lines := by
    rcases ht.lines with h | h | h
    · exact .inl h
    · exact .inr ⟨freq, mode, ha, .inl h⟩
    · exact .inr ⟨freq, mode, ha, .inr h⟩
  single line hline := by
    have hlines : line = setFreqLine freq ∨ line = modeLine state mode := by
      rcases ht.lines with h | h | h <;> rw [h] at hline <;> simp at hline <;> tauto
    rcases hlines with rfl | rfl
    · exact single_setFreqLine freq
    · exact single_setModeLine _
  bytes b hb := .inr ⟨freq, mode, ha, ht.onWire hb⟩
  silent h := (h.elim hm ha.not_invalid).elim
  ok status h := by
    rw [ha.tuned_iff]
    rcases hs status h with ⟨rfl, hack⟩ | ⟨rfl, hack⟩
    · exact iff_of_true rfl hack
    · exact iff_of_false (fun e => by cases e) hack
  forbidden status h := by
    refine iff_of_false ?_ hm
    rintro rfl
    rcases hs _ h with ⟨e, -⟩ | ⟨e, -⟩ <;> cases e
  badRequest status h := by
    refine iff_of_false ?_ fun h => ha.not_invalid h.2
    rintro rfl
    rcases hs _ h with ⟨e, -⟩ | ⟨e, -⟩ <;> cases e
  badGateway status h := by
    rw [ha.tuned_iff]
    rcases hs status h with ⟨rfl, hack⟩ | ⟨rfl, hack⟩
    · exact iff_of_false (fun e => by cases e) fun h => h.2.2 hack
    · exact iff_of_true rfl ⟨hm, ha.not_invalid, hack⟩

/-! ### Runs -/

section Runs

variable {ν F : Type} [DecidableEq ν] {R : F32 F} {request : ν → Request}

/-- The step of the rig that a step of the system is. -/
def Act.rigAct : Act ν F → Option (Rig.Act F)
  | .dispatched _ job => some (.requested job)
  | .rig a => some a
  | _ => none

/-- What a stage says about its request. -/
inductive Handled (state : AppState) (req : Request)
    (replies : List (Job × Except RigError (Reply F))) : Stage → Prop where
  | arrived : Handled state req replies .arrived
  | refused {status : StatusCode} (h : tune state req = .error status) :
      Handled state req replies (.answered none status)
  | gone : Handled state req replies (.dropped none)
  | setting {job : Job} {freq : UInt64} {mode : HamlibMode} (h : tune state req = .ok (freq, mode))
      (hj : job.cmd = .setFreqMode freq mode) : Handled state req replies (.setting job)
  | answered {job : Job} {freq : UInt64} {mode : HamlibMode}
      {res : Except RigError (Reply F)} (h : tune state req = .ok (freq, mode))
      (hj : job.cmd = .setFreqMode freq mode) (hr : (job, res) ∈ replies) :
      Handled state req replies (.answered (some job) (tuned res))
  | dropped {job : Job} {freq : UInt64} {mode : HamlibMode} (h : tune state req = .ok (freq, mode))
      (hj : job.cmd = .setFreqMode freq mode) : Handled state req replies (.dropped (some job))

theorem Handled.mono {replies replies' : List (Job × Except RigError (Reply F))} {stage : Stage}
    (h : Handled state req replies stage) (hsub : ∀ r ∈ replies, r ∈ replies') :
    Handled state req replies' stage := by
  cases h with
  | arrived => exact .arrived
  | refused h => exact .refused h
  | gone => exact .gone
  | setting h hj => exact .setting h hj
  | answered h hj hr => exact .answered h hj (hsub _ hr)
  | dropped h hj => exact .dropped h hj

theorem Handled.drop {replies : List (Job × Except RigError (Reply F))} {stage : Stage}
    (h : Handled state req replies stage) (hs : stage.status? = none) :
    Handled state req replies (.dropped stage.job?) := by
  cases h with
  | arrived | gone => exact .gone
  | refused | answered => cases hs
  | setting h hj | dropped h hj => exact .dropped h hj

/-- One stage changes, to one that its request allows. -/
theorem handled_setStage {s : System ν F} {c : ν} {stage : Stage}
    (h : ∀ c, Handled state (request c) s.replies (s.stage c))
    (hc : Handled state (request c) s.replies stage) (c' : ν) :
    Handled state (request c') s.replies ((s.setStage c stage).stage c') := by
  rw [System.setStage_stage]
  split
  · rename_i hcc
    exact hcc ▸ hc
  · exact h c'

theorem Handled.step {s s' : System ν F} {a : Act ν F} (hs : Step R state request s a s')
    (h : ∀ c, Handled state (request c) s.replies (s.stage c)) :
    ∀ c, Handled state (request c) s'.replies (s'.stage c) := by
  cases hs with
  | refused hc ht => exact handled_setStage h (.refused ht)
  | dispatched hc ht hh => exact handled_setStage h (.setting ht rfl)
  | rig hs ha => exact fun c => (h c).mono fun r hr => List.mem_append_left _ hr
  | @resumed c _ _ hc hr =>
      have hcur := h c
      rw [hc] at hcur
      cases hcur with
      | setting ht hj => exact handled_setStage h (.answered ht hj hr)
  | dropped hc => exact handled_setStage h ((h _).drop hc)

/-- **A run of the system is a run of the rig**, with its record. -/
theorem recorded {tr : List (Act ν F)} {s : System ν F}
    (h : Run (Step R state request) Always .start tr s) :
    Run (Recorded R) Always (.spawn, []) (tr.filterMap Act.rigAct) (s.rig, s.record) := by
  refine h.simulate (fun s => (s.rig, s.record)) Act.rigAct ?_ ?_
  · intro s a s' hs ha
    cases hs with
    | refused | resumed | dropped => rfl
    | dispatched | rig => cases ha
  · rintro s a s' b - hs ha
    refine ⟨trivial, ?_⟩
    cases hs with
    | refused | resumed | dropped => cases ha
    | @dispatched c freq mode hc ht hh =>
        cases ha
        have hstep := Recorded.step s.record
          (Rig.Step.requested (R := R) (.setFreqMode freq mode) hh)
        simp only [entry, Option.toList_none, List.append_nil] at hstep
        exact hstep
    | rig hs =>
        cases ha
        exact .step s.record hs

theorem replies_eq {tr : List (Act ν F)} {s : System ν F}
    (h : Run (Step R state request) Always .start tr s) :
    s.replies = answers (tr.filterMap Act.rigAct) := by
  refine h.invariant (I := fun tr s => s.replies = answers (tr.filterMap Act.rigAct)) rfl ?_
  rintro tr s a s' - ih - hs
  rw [filterMap_snoc]
  cases hs with
  | refused | resumed | dropped => simpa [Act.rigAct] using ih
  | dispatched => simpa [Act.rigAct, Rig.Act.answer, System.setStage] using ih
  | rig => simpa [Act.rigAct] using ih

/-- The reply to a request and what was said for it. -/
theorem Replied.tuned_cases {job : Job} {freq : UInt64} {mode : HamlibMode} {es : List WireEvent}
    {res : Except RigError (Reply F)} (h : Replied R job es res)
    (hj : job.cmd = .setFreqMode freq mode) :
    (tuned res = .ok ∧ BothAcknowledged (setFreqLine freq) (setModeLine mode) es) ∨
      tuned res = .badGateway ∧ ¬ BothAcknowledged (setFreqLine freq) (setModeLine mode) es := by
  cases h with
  | drained h =>
      subst h
      refine .inr ⟨rfl, ?_⟩
      rintro ⟨_, _, _, _, h⟩
      cases h
  | @talked r h =>
      rw [hj] at h
      have htalk := talk_setFreqMode h
      rcases r with e | e | reply
      · exact .inr ⟨rfl, fun hack => absurd (htalk.ended_iff.mpr hack) (by decide)⟩
      · exact .inr ⟨rfl, fun hack => absurd (htalk.ended_iff.mpr hack) (by decide)⟩
      · exact .inl ⟨rfl, htalk.ended_iff.mp rfl⟩

/-- **What a click-to-tune request can make the relay write.**  In every run of the handlers of any
requests, beside the actor of the rig and its other clients, each request is lawful at every
point. -/
theorem tune_lawful {tr : List (Act ν F)} {s : System ν F}
    (h : Run (Step R state request) Always .start tr s) (c : ν) :
    Lawful state (request c) (s.stage c).status? (s.eventsOf c) := by
  have hacc := account (recorded h)
  have hreplies := replies_eq h
  have hhandled : ∀ c, Handled state (request c) s.replies (s.stage c) := by
    refine h.invariant (I := fun _ s => ∀ c, Handled state (request c) s.replies (s.stage c)) ?_ ?_
    · exact fun _ => .arrived
    · exact fun _ ih _ hs => Handled.step hs ih
  have hc := hhandled c
  rw [System.eventsOf]
  generalize s.stage c = stage at hc ⊢
  have hasked : ∀ {job : Job} {freq mode}, tune state (request c) = .ok (freq, mode) →
      job.cmd = .setFreqMode freq mode → ∃ mode' out, ¬ Mismatched state (request c) ∧
        Asks (request c) freq mode' ∧ mode = mode'.resolve state.overrides ∧
        SetTalk (setFreqLine freq) (modeLine state mode') (onBehalf s.record job) out := by
    intro job freq mode ht hj
    rcases tune_spec state (request c) with ⟨-, h'⟩ | ⟨-, -, h'⟩ | ⟨hm, freq', mode', ha, h'⟩
    · cases ht.symm.trans h'
    · cases ht.symm.trans h'
    · cases ht.symm.trans h'
      obtain ⟨rest, htalk⟩ := hacc.talk job
      rw [hj] at htalk
      exact ⟨mode', _, hm, ha, rfl, talk_setFreqMode htalk⟩
  cases hc with
  | arrived | gone => exact lawful_silent fun _ h => by cases h
  | refused ht =>
      refine lawful_silent fun status hs => ?_
      cases hs
      exact ht
  | setting ht hj | dropped ht hj =>
      obtain ⟨mode', out, hm, ha, -, htalk⟩ := hasked ht hj
      exact lawful_talk hm ha htalk fun _ h => by cases h
  | answered ht hj hr =>
      obtain ⟨mode', out, hm, ha, rfl, htalk⟩ := hasked ht hj
      refine lawful_talk hm ha htalk fun status hs => ?_
      cases hs
      rw [hreplies] at hr
      exact Replied.tuned_cases (hacc.replied _ _ hr) hj

end Runs

/-- A click from a script on the host. -/
def clickRequest : Request where
  origins := []
  freqSegment := "28270000".toList
  modeSegment := "dig".toList

def clickJob : Job := ⟨0, .setFreqMode 28270000 .pktUsb⟩

def clickTalk : List WireEvent :=
  [⟨.send (setFreqLine 28270000), .ok ()⟩, ⟨.readLine, .ok "RPRT 0\n".toList⟩,
    ⟨.send (setModeLine .pktUsb), .ok ()⟩, ⟨.readLine, .ok "RPRT 0\n".toList⟩]

/-- The click is dispatched, carried out and answered. -/
def clickActs : List (Act Unit Nat) :=
  [.rig (.connected 0), .dispatched () clickJob, .rig (.sent clickJob),
    .rig (.received 0 clickJob)] ++ clickTalk.map (fun e => .rig (.wire 0 e)) ++
    [.rig (.served 0 clickJob (.ok .done)), .resumed () (tuned (F := Nat) (.ok .done))]

def clickEnd : System Unit Nat where
  rig := { (World.spawn : World Nat) with requests := 1, conns := 1, phase := .serving 0 }
  record := clickTalk.map (clickJob, ·)
  replies := [(clickJob, .ok .done)]
  stage := Function.update (Function.update (fun _ => .arrived) () (.setting clickJob)) ()
    (.answered (some clickJob) .ok)

theorem click_lawful :
    Lawful { overrides := {}, allowOrigin := [] } clickRequest (some .ok) clickTalk := by
  have hrun : Run (Step wholePower { overrides := {}, allowOrigin := [] } fun _ => clickRequest)
      Always .start clickActs clickEnd := by
    refine .cons trivial (.rig (.connected rfl) fun _ h => by cases h) ?_
    refine .cons trivial (.dispatched rfl rfl rfl) ?_
    refine .cons trivial (.rig (.sent (l := []) rfl (by decide)) fun _ h => by cases h) ?_
    refine .cons trivial (.rig (.received rfl rfl) fun _ h => by cases h) ?_
    refine .cons trivial (.rig (.wire (q := .send _) rfl (.ok ())) fun _ h => by cases h) ?_
    refine .cons trivial (.rig (.wire (q := .readLine) rfl (.ok _)) fun _ h => by cases h) ?_
    refine .cons trivial (.rig (.wire (q := .send _) rfl (.ok ())) fun _ h => by cases h) ?_
    refine .cons trivial (.rig (.wire (q := .readLine) rfl (.ok _)) fun _ h => by cases h) ?_
    refine .cons trivial (.rig (.served rfl) fun _ h => by cases h) ?_
    refine .cons trivial (.resumed rfl (.head _)) ?_
    exact .nil
  exact tune_lawful hrun ()

end WavelogRelay.Listener
