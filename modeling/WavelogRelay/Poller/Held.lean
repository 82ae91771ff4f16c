import WavelogRelay.Library.Since
import WavelogRelay.Poller.Worker

/-!
# Poller — what Wavelog holds when a snapshot is skipped

Wavelog holds the last snapshot of which it has processed a POST (`held`).  A push can be processed
without the worker being told (`Unconfirmed`): then the deduper does not know what Wavelog holds.

* `Holds.step`: what the deduper has recorded is what Wavelog holds, as long as no such push is of
  another bin.
* `skipped_held`: then what is skipped is what Wavelog holds.
* `return_skipped_not_held`: otherwise it need not be.
-/

namespace WavelogRelay.Poller
open Library Rig Wavelog

variable {F : Type}

/-- The snapshot that Wavelog processes. -/
def Act.processing : Act F → Option (Snapshot F)
  | .pushed s attempts _ | .cancelled s attempts =>
      if attempts.any Attempt.processed then some s else none
  | _ => none

/-- The snapshot that Wavelog holds. -/
def held (tr : List (Act F)) : Option (Snapshot F) := (tr.filterMap Act.processing).getLast?

/-- The attempts of a push, processed by one of them and answered with success by none. -/
def Unconfirmed (attempts : List Attempt) : Prop :=
  (∃ x ∈ attempts, x.processed = true) ∧ ∀ x ∈ attempts, doRadioPost x.met ≠ .ok ()

/-- A push that Wavelog processes without the worker being told has the bin that was recorded, if
one was not long before. -/
def Confirmed (R : F32 F) (w : World F) : Act F → Prop
  | .pushed s attempts _ | .cancelled s attempts => Unconfirmed attempts →
      w.deduper.Recent w.clock → ∀ last, w.deduper.last = some last → keyOf R s.state = last
  | _ => True

variable {R : F32 F} {w w' : World F} {a : Act F} {tr : List (Act F)}

theorem held_of_processing {s : Snapshot F} (h : a.processing = some s) :
    held (tr ++ [a]) = some s := by
  rw [held, filterMap_snoc, h]
  simp

theorem held_of_not_processing (h : a.processing = none) : held (tr ++ [a]) = held tr := by
  rw [held, filterMap_snoc, h]
  simp [held]

/-- A push that ends with success has a last attempt that did. -/
theorem processed_of_ok {attempts : List Attempt} {u : Unit} (hsound : ∀ x ∈ attempts, x.Sound)
    (h : pushRadio (attempts.map Attempt.met) = some (.ok u)) :
    attempts.any Attempt.processed = true := by
  obtain ⟨-, init, hmap, -⟩ := withRetries_spec h
  have hmem : Except.ok u ∈ (attempts.map Attempt.met).map doRadioPost := by simp [hmap]
  rw [List.map_map] at hmem
  obtain ⟨x, hx, hok⟩ := List.mem_map.mp hmem
  exact List.any_eq_true.mpr ⟨x, hx, hsound x hx hok⟩

/-- A push that ends with an error has no attempt that was answered with success. -/
theorem not_ok_of_error {attempts : List Attempt} {e : WavelogError}
    (h : pushRadio (attempts.map Attempt.met) = some (.error e)) :
    ∀ x ∈ attempts, doRadioPost x.met ≠ .ok () := by
  intro x hx hok
  obtain ⟨-, init, hmap, hinit⟩ := withRetries_spec h
  have hmem : doRadioPost x.met ∈ (attempts.map Attempt.met).map doRadioPost :=
    List.mem_map_of_mem (List.mem_map_of_mem hx)
  rw [hmap, hok, List.mem_append, List.mem_singleton] at hmem
  rcases hmem with hmem | hmem
  · obtain ⟨e', he', -⟩ := hinit _ hmem
    cases he'
  · cases hmem

/-- As long as it matters, the deduper has recorded the bin of what Wavelog holds. -/
def Holds (R : F32 F) (tr : List (Act F)) (w : World F) : Prop :=
  w.deduper.Recent w.clock →
    ∀ last, w.deduper.last = some last → ∃ p, held tr = some p ∧ keyOf R p.state = last

/-- A push that the worker does not record. -/
theorem Holds.unrecorded (h : Holds R tr w) {s : Snapshot F} {attempts : List Attempt}
    (ha : a.processing = if attempts.any Attempt.processed then some s else none)
    (hconf : Unconfirmed attempts → w.deduper.Recent w.clock →
      ∀ last, w.deduper.last = some last → keyOf R s.state = last)
    (hnot : ∀ x ∈ attempts, doRadioPost x.met ≠ .ok ()) (hd : w'.deduper = w.deduper)
    (hclock : w'.clock = w.clock) : Holds R (tr ++ [a]) w' := by
  intro hrecent last hlast
  rw [hd, hclock] at hrecent
  rw [hd] at hlast
  by_cases hany : attempts.any Attempt.processed = true
  · rw [if_pos hany] at ha
    exact ⟨s, held_of_processing ha, hconf ⟨List.any_eq_true.mp hany, hnot⟩ hrecent last hlast⟩
  · rw [if_neg hany] at ha
    rw [held_of_not_processing ha]
    exact h hrecent last hlast

theorem Holds.step (h : Holds R tr w) (ha : Confirmed R w a) (hs : Step R w a w') :
    Holds R (tr ++ [a]) w' := by
  cases hs with
  | @pushed s kind attempts res hw hsound hres =>
      cases res with
      | ok u =>
          have hp : (Act.pushed s attempts (.ok u)).processing = some s := by
            rw [Act.processing, if_pos (processed_of_ok hsound hres)]
          intro _ last hlast
          cases hlast
          exact ⟨s, held_of_processing hp, rfl⟩
      | error e => exact h.unrecorded rfl ha (not_ok_of_error hres) rfl rfl
  | cancelled hw hatt hc =>
      refine h.unrecorded rfl ha (fun x hx hok => ?_) rfl rfl
      obtain ⟨e, he, -⟩ := hatt.2 x hx
      cases hok.symm.trans he
  | tickerNotified =>
      intro hrecent last hlast
      rw [held_of_not_processing rfl]
      split at hrecent <;> split at hlast <;> exact h hrecent last hlast
  | skipped hw hc hv hnow | started hw hc hv hnow =>
      -- what was recorded recently enough for a later time was so before
      intro hrecent last hlast
      rw [held_of_not_processing rfl]
      exact h (hrecent.of_le hnow) last hlast
  | _ =>
      intro hrecent last hlast
      rw [held_of_not_processing rfl]
      exact h hrecent last hlast

/-- What is skipped is what Wavelog holds. -/
def SkippedHeld (R : F32 F) (tr : List (Act F)) : Prop :=
  ∀ tr₁ s tr₂, tr = tr₁ ++ .skipped s :: tr₂ →
    ∃ p, held tr₁ = some p ∧ SameBin R p.state s.state

/-- **A skipped snapshot is one Wavelog already shows**, in every run in which every push that is
processed without the worker being told has the recorded bin. -/
theorem skipped_held (h : Run (Step R) (Confirmed R) .start tr w) : SkippedHeld R tr := by
  rintro tr₁ s tr₂ rfl
  obtain ⟨m, m', hr, -, hs, -⟩ := h.step_at
  have hholds : Holds R tr₁ m :=
    hr.invariant (fun _ _ h => by cases h) fun _ h ha hs => h.step ha hs
  cases hs with
  | skipped hw hc hv hnow hskip =>
      obtain ⟨hlast, hrecent⟩ := last_of_shouldSkip hskip
      obtain ⟨p, hp, hkey⟩ := hholds (hrecent.of_le hnow) _ hlast
      exact ⟨p, hp, keyOf_eq_iff.mp hkey⟩

/-! ### Returning to a frequency -/

def homeState : RigState Nat := { freq := 14074000, mode := "USB".toList, power := none }

def awayState : RigState Nat := { freq := 7074000, mode := "USB".toList, power := none }

/-- What a push of the second state meets: no attempt is answered. -/
def lostAttempts (processed : Bool) : List Attempt :=
  [⟨.failed, processed⟩, ⟨.failed, false⟩, ⟨.failed, false⟩]

/-- The first state is pushed, the push of the second fails, and the first is skipped. -/
def returnActs (processed : Bool) : List (Act Nat) :=
  [.ticker, .worker, .published homeState, .started ⟨1, homeState, 0⟩ .initial,
    .pushed ⟨1, homeState, 0⟩ [⟨.answered 200 none, true⟩] (.ok ()), .published awayState,
    .started ⟨2, awayState, 1000⟩ .change,
    .pushed ⟨2, awayState, 1000⟩ (lostAttempts processed) (.error .http), .published homeState,
    .skipped ⟨3, homeState, 20000⟩]

def returnEnd : World Nat :=
  { (World.start : World Nat) with
    states := ⟨some homeState, 3, false⟩
    ticker := .ticking
    worker := .idle
    statesSeen := 3
    deduper := ⟨some (keyOf wholePower homeState), some 0⟩
    clock := 20000 }

theorem home_sound {x : Attempt} (h : x ∈ [(⟨.answered 200 none, true⟩ : Attempt)]) : x.Sound :=
  fun _ => by rw [List.mem_singleton.mp h]

theorem lost_sound {processed : Bool} {x : Attempt} (h : x ∈ lostAttempts processed) :
    x.Sound := fun hok => by
  simp only [lostAttempts, List.mem_cons, List.not_mem_nil, or_false] at h
  rcases h with rfl | rfl | rfl <;> cases hok

/-- A push that had no effect is skipped over rightly. -/
theorem return_without_effect_held : SkippedHeld wholePower (returnActs false) := by
  suffices h : Run (Step wholePower) (Confirmed wholePower) .start (returnActs false) returnEnd from
    skipped_held h
  refine .cons trivial (.runStarts rfl rfl) ?_
  refine .cons trivial (.workerStarts rfl rfl) ?_
  refine .cons trivial (.published _ rfl) ?_
  refine .cons trivial (.started rfl rfl rfl (Nat.le_refl 0) rfl) ?_
  refine .cons (fun hun => absurd rfl (hun.2 _ (List.mem_singleton.mpr rfl)))
    (.pushed rfl (fun _ => home_sound) rfl) ?_
  refine .cons trivial (.published _ rfl) ?_
  refine .cons trivial (.started rfl rfl rfl (Nat.zero_le 1000) rfl) ?_
  refine .cons (fun hun _ => ?_) (.pushed rfl (fun _ => lost_sound) rfl) ?_
  · obtain ⟨x, hx, hproc⟩ := hun.1
    simp only [lostAttempts, List.mem_cons, List.not_mem_nil, or_false] at hx
    rcases hx with rfl | rfl | rfl <;> cases hproc
  refine .cons trivial (.published _ rfl) ?_
  exact .cons trivial (.skipped rfl rfl rfl (by decide) rfl) .nil

/-- **A push whose response is lost is not**: the first state is skipped while Wavelog shows the
second. -/
theorem return_skipped_not_held :
    ¬ ∀ tr w, Run (Step wholePower) Always .start tr w → SkippedHeld wholePower tr := by
  intro hall
  have hrun : Run (Step wholePower) Always .start (returnActs true) returnEnd := by
    refine .cons trivial (.runStarts rfl rfl) ?_
    refine .cons trivial (.workerStarts rfl rfl) ?_
    refine .cons trivial (.published _ rfl) ?_
    refine .cons trivial (.started rfl rfl rfl (Nat.le_refl 0) rfl) ?_
    refine .cons trivial (.pushed rfl (fun _ => home_sound) rfl) ?_
    refine .cons trivial (.published _ rfl) ?_
    refine .cons trivial (.started rfl rfl rfl (Nat.zero_le 1000) rfl) ?_
    refine .cons trivial (.pushed rfl (fun _ => lost_sound) rfl) ?_
    refine .cons trivial (.published _ rfl) ?_
    exact .cons trivial (.skipped rfl rfl rfl (by decide) rfl) .nil
  obtain ⟨p, hp, hfreq, -⟩ := hall _ _ hrun (returnActs true).dropLast ⟨3, homeState, 20000⟩ [] rfl
  cases hp
  cases hfreq

end WavelogRelay.Poller
