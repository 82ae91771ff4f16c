import WavelogRelay.Library.Since
import WavelogRelay.Rig.Actor

/-!
# Rig — health as a function of the history

Three acts of the actor matter to its health: a connect that fails, an I/O error that ends a
command, and a command that completes.  `streak tr` lists the failures of a trace since its last
completed command, the latest first.

* `Health.Reflects h s`: the state that `h` holds and has published is the one of the streak `s`,
  and `recordFailure` and `recordSuccess` tell where a run of failures begins and where a streak
  ends.
* `Step.health`: a step records the event it is, if it is one, and leaves the health otherwise.
* `reflects_streak`: in every run the health is the one of the streak so far.
-/

namespace WavelogRelay.Rig
open Library

/-! ### Events -/

inductive HealthEvent where
  | failed (kind : DegradedKind)
  | completed
  deriving DecidableEq, Repr

/-- The failures since the last completed command, of events with the latest first. -/
def failuresSince : List HealthEvent → List DegradedKind
  | .failed kind :: events => kind :: failuresSince events
  | .completed :: _ => []
  | [] => []

variable {F : Type}

/-- What an act is to the health of the actor. -/
def Act.healthEvent : Act F → Option HealthEvent
  | .connectFailed => some (.failed .unreachable)
  | .lost .. => some (.failed .unresponsive)
  | .served .. => some .completed
  | _ => none

/-- The failures of a trace since its last completed command, the latest first. -/
def streak (tr : List (Act F)) : List DegradedKind :=
  failuresSince (tr.filterMap Act.healthEvent).reverse

theorem streak_snoc (tr : List (Act F)) (a : Act F) :
    streak (tr ++ [a]) =
      match a.healthEvent with
      | some (.failed kind) => kind :: streak tr
      | some .completed => []
      | none => streak tr := by
  rw [streak, filterMap_snoc, List.reverse_append]
  rcases a.healthEvent with _ | ⟨_ | _⟩ <;> rfl

/-! ### Health -/

/-- The number of failures of `kind` that a streak begins with. -/
def runLength (kind : DegradedKind) (streak : List DegradedKind) : Nat :=
  (streak.takeWhile (· == kind)).length

/-- `Health` holds what a streak says, and has published it. -/
structure Health.Reflects (h : Health) (streak : List DegradedKind) : Prop where
  published : h.tx.value = h.state
  healthy : h.state = .healthy ↔ streak = []
  degraded : ∀ kind rest, streak = kind :: rest →
    h.state = .degraded kind (min (runLength kind streak) 0xffffffff)
  recordFailure : ∀ kind, (h.recordFailure kind).1 = 1 ↔ streak.head? ≠ some kind
  recordSuccess : h.recordSuccess.1 = true ↔ streak ≠ []

/-- The state that a streak makes. -/
def stateOf : List DegradedKind → HealthState
  | [] => .healthy
  | kind :: rest => .degraded kind (min (runLength kind (kind :: rest)) 0xffffffff)

theorem satSucc_min (max n : Nat) : satSucc max (min n max) = min (n + 1) max := by
  unfold satSucc
  omega

theorem runLength_same (kind : DegradedKind) (rest : List DegradedKind) :
    runLength kind (kind :: rest) = runLength kind rest + 1 := by
  simp [runLength]

theorem runLength_other {kind other : DegradedKind} (h : other ≠ kind)
    (rest : List DegradedKind) : runLength kind (other :: rest) = 0 := by
  simp [runLength, h]

/-- A failure makes its run one longer. -/
theorem nextFailures_stateOf (s : List DegradedKind) (kind : DegradedKind) :
    nextFailures (stateOf s) kind = min (runLength kind s + 1) 0xffffffff := by
  rcases s with _ | ⟨prior, rest⟩
  · rfl
  · by_cases hk : prior = kind
    · subst hk
      rw [stateOf, nextFailures, if_pos rfl, satSucc_min]
    · rw [stateOf, nextFailures, if_neg hk, runLength_other hk]
      rfl

theorem runLength_pos_iff {kind : DegradedKind} {s : List DegradedKind} :
    0 < runLength kind s ↔ s.head? = some kind := by
  rcases s with _ | ⟨other, rest⟩
  · simp [runLength]
  · by_cases hk : other = kind
    · subst hk
      simp [runLength_same]
    · simp [runLength_other hk, hk]

/-- The state alone determines the rest. -/
theorem Health.reflects_of {h : Health} {s : List DegradedKind} (hp : h.tx.value = h.state)
    (hs : h.state = stateOf s) : h.Reflects s where
  published := hp
  healthy := by cases s <;> simp [hs, stateOf]
  degraded := by
    rintro kind rest rfl
    exact hs
  recordFailure kind := by
    have hone : min (runLength kind s + 1) 0xffffffff = 1 ↔ ¬ 0 < runLength kind s := by omega
    rw [Health.recordFailure, hs, nextFailures_stateOf, hone, runLength_pos_iff]
  recordSuccess := by cases s <;> simp [Health.recordSuccess, hs, stateOf]

theorem Health.Reflects.state_eq {h : Health} {s : List DegradedKind} (hr : h.Reflects s) :
    h.state = stateOf s := by
  cases s with
  | nil => exact hr.healthy.mpr rfl
  | cons kind rest => exact hr.degraded kind rest rfl

/-- What the actor does to its health on an event. -/
def Health.record (h : Health) : HealthEvent → Health
  | .failed kind => (h.recordFailure kind).2
  | .completed => h.recordSuccess.2

theorem Health.Reflects.failed {h : Health} {s : List DegradedKind} (hr : h.Reflects s)
    (kind : DegradedKind) : (h.record (.failed kind)).Reflects (kind :: s) := by
  refine reflects_of rfl ?_
  change HealthState.degraded kind (nextFailures h.state kind) = stateOf (kind :: s)
  rw [hr.state_eq, nextFailures_stateOf, stateOf, runLength_same]

theorem Health.Reflects.completed {h : Health} {s : List DegradedKind} (hr : h.Reflects s) :
    (h.record .completed).Reflects [] := by
  cases hs : h.state with
  | healthy =>
      have hsame : h.record .completed = h := by simp only [Health.record, Health.recordSuccess, hs]
      rw [hsame]
      exact reflects_of hr.published hs
  | degraded kind failures =>
      refine reflects_of ?_ ?_ <;> simp only [Health.record, Health.recordSuccess, hs] <;> rfl

/-! ### Runs -/

variable {R : F32 F} {w w' : World F} {a : Act F}

/-- **A step and the health**: it records its event, and no other step touches the health. -/
theorem Step.health (hs : Step R w a w') :
    w'.health = match a.healthEvent with
      | some event => w.health.record event
      | none => w.health := by
  cases hs <;> rfl

theorem Health.Reflects.step {tr : List (Act F)} (h : w.health.Reflects (streak tr))
    (hs : Step R w a w') : w'.health.Reflects (streak (tr ++ [a])) := by
  rw [hs.health, streak_snoc]
  rcases a.healthEvent with _ | ⟨kind | _⟩
  · exact h
  · exact h.failed kind
  · exact h.completed

/-- **Health reflects the history**, in every run. -/
theorem reflects_streak {tr : List (Act F)} (h : Run (Step R) Always .spawn tr w) :
    w.health.Reflects (streak tr) := by
  refine h.invariant (I := fun tr w => w.health.Reflects (streak tr)) ?_ ?_
  · exact Health.reflects_of rfl rfl
  · rintro tr w a w' - ih - hs
    exact ih.step hs

end WavelogRelay.Rig
