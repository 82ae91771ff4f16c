import WavelogRelay.Rig.Health
import WavelogRelay.Util

/-!
# Poller — the cadence of the tick loop

`cadenceFor` reads the health that the actor of the rig published.

* `cadenceFor_stateOf`: the loop slows down when a streak begins with three failures of one kind.
* `health_and_cadence`: in every run of the actor and its clients, the health published is the one
  of the streak so far, and the cadence follows from it.
-/

namespace WavelogRelay.Poller
open Library Rig

/-- `SLOW_AFTER_FAILURES`. -/
def slowAfterFailures : Nat := 3

/-- `DEGRADED_INTERVAL`, 15 s. -/
def degradedInterval : Duration := 15 * nanosPerSec

def cadenceFor (state : HealthState) (base : Duration) : Duration :=
  match state with
  | .degraded _ failures => if slowAfterFailures ≤ failures then degradedInterval else base
  | .healthy => base

/-- A streak begins with three failures of one kind. -/
def ThreeAlike (streak : List DegradedKind) : Prop :=
  ∃ kind rest, streak = kind :: kind :: kind :: rest

theorem three_le_runLength_iff {kind : DegradedKind} {rest : List DegradedKind} :
    3 ≤ runLength kind (kind :: rest) ↔ ThreeAlike (kind :: rest) := by
  constructor
  · intro h
    rw [runLength_same] at h
    obtain ⟨rest, rfl⟩ : ∃ rest', rest = kind :: rest' := by
      have hpos : 0 < runLength kind rest := by omega
      exact List.head?_eq_some_iff.mp (runLength_pos_iff.mp hpos)
    rw [runLength_same] at h
    obtain ⟨rest, rfl⟩ : ∃ rest', rest = kind :: rest' := by
      have hpos : 0 < runLength kind rest := by omega
      exact List.head?_eq_some_iff.mp (runLength_pos_iff.mp hpos)
    exact ⟨kind, rest, rfl⟩
  · rintro ⟨kind', rest', h⟩
    cases h
    simp only [runLength_same]
    omega

theorem cadenceFor_stateOf (s : List DegradedKind) (base : Duration) :
    (ThreeAlike s → cadenceFor (stateOf s) base = degradedInterval) ∧
      (¬ ThreeAlike s → cadenceFor (stateOf s) base = base) := by
  rcases s with _ | ⟨kind, rest⟩
  · refine ⟨?_, fun _ => rfl⟩
    rintro ⟨kind, rest, h⟩
    cases h
  · rw [← three_le_runLength_iff]
    have hslow : slowAfterFailures ≤ min (runLength kind (kind :: rest)) 0xffffffff ↔
        3 ≤ runLength kind (kind :: rest) := by
      unfold slowAfterFailures
      omega
    constructor
    · intro h
      exact if_pos (hslow.mpr h)
    · intro h
      exact if_neg fun h' => h (hslow.mp h')

variable {F : Type} {R : F32 F}

/-- **Health and cadence follow the history.**  In every run the health published is the one that
the actor holds, it is the one of the streak so far, and the cadence is the degraded one just when
the last three failures of the streak are of one kind.  A step that is no failure and no completed
command, such as a connect, leaves the health as it is. -/
theorem health_and_cadence {tr : List (Act F)} {w : World F}
    (h : Run (Step R) Always .spawn tr w) :
    w.health.Reflects (streak tr) ∧
    (∀ base, (ThreeAlike (streak tr) → cadenceFor w.health.tx.value base = degradedInterval) ∧
      (¬ ThreeAlike (streak tr) → cadenceFor w.health.tx.value base = base)) ∧
    ∀ a w', Step R w a w' →
      (∀ event, a.healthEvent = some event → w'.health = w.health.record event) ∧
        (a.healthEvent = none → w'.health = w.health) := by
  have hr := reflects_streak h
  refine ⟨hr, fun base => ?_, fun a w' hs => ?_⟩
  · rw [hr.published, hr.state_eq]
    exact cadenceFor_stateOf (streak tr) base
  · have hh := hs.health
    constructor
    · intro event he
      rw [hh, he]
    · intro he
      rw [hh, he]

/-- Three connects fail. -/
theorem cadence_after_three : ∃ (tr : List (Act Nat)) (w : World Nat),
    Run (Step wholePower) Always .spawn tr w ∧ streak tr = List.replicate 3 .unreachable ∧
      cadenceFor w.health.tx.value 1 = degradedInterval := by
  have hrun : Run (Step wholePower) Always .spawn [] .spawn := .nil
  have hrun₁ := (hrun.extend (.connectFailed rfl) trivial).extend (.woke rfl) trivial
  have hrun₂ := (hrun₁.extend (.connectFailed rfl) trivial).extend (.woke rfl) trivial
  have hrun₃ := hrun₂.extend (.connectFailed rfl) trivial
  exact ⟨_, _, hrun₃, rfl, ((health_and_cadence hrun₃).2.1 1).1 ⟨_, _, rfl⟩⟩

end WavelogRelay.Poller
