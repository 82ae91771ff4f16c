import Mathlib.Tactic.Common

/-!
# Library — a watch channel

A watch channel holds the latest value sent and counts the versions.  A receiver remembers the
version it has seen.  `changed` is ready when there is an unseen version, which it marks as seen,
or when the sender is gone.

* `Follows P`: a receiver that goes on only while what it has seen is a `P`.
* `Follows.ready`: it does not wait on anything else.
-/

namespace Library

structure Watch (α : Type*) where
  value : α
  version : Nat
  closed : Bool
  deriving DecidableEq, Repr

namespace Watch

variable {α : Type*}

/-- A new channel, with its first value seen by the first receiver. -/
def new (value : α) : Watch α := { value, version := 0, closed := false }

def send (w : Watch α) (value : α) : Watch α := { w with value, version := w.version + 1 }

/-- The sender is dropped. -/
def close (w : Watch α) : Watch α := { w with closed := true }

/-- What `changed` returns to a receiver that has seen the version `seen`, once it is ready:
whether it is `Ok`, and the version seen then. -/
def changed (w : Watch α) (seen : Nat) : Option (Bool × Nat) :=
  if w.version ≠ seen then some (true, w.version)
  else if w.closed then some (false, seen)
  else none

variable {w : Watch α} {seen seen' : Nat} {ok : Bool}

/-- A receiver then has seen the latest version, and is told an error only if it had. -/
theorem changed_spec (h : w.changed seen = some (ok, seen')) :
    seen' = w.version ∧ (ok = false → w.version = seen ∧ w.closed = true) ∧
      (ok = true → w.version ≠ seen) := by
  unfold changed at h
  split at h
  · rename_i hne
    cases h
    exact ⟨rfl, nofun, fun _ => hne⟩
  · rename_i heq
    have heq := Classical.not_not.mp heq
    split at h
    · rename_i hclosed
      cases h
      exact ⟨heq.symm, fun _ => ⟨heq, hclosed⟩, nofun⟩
    · cases h

/-- The receiver that has seen the version `seen` goes on for as long as it sees a `P`: if it has
seen the latest value, that is one. -/
structure Follows (P : α → Prop) (w : Watch α) (seen : Nat) : Prop where
  seen_le : seen ≤ w.version
  value : seen = w.version → P w.value

namespace Follows

variable {P : α → Prop}

/-- The receiver has looked. -/
theorem borrow (h : P w.value) : w.Follows P w.version := ⟨Nat.le_refl _, fun _ => h⟩

theorem send (h : w.Follows P seen) (value : α) : (w.send value).Follows P seen :=
  ⟨Nat.le_succ_of_le h.seen_le, fun heq => absurd heq (Nat.ne_of_lt (Nat.lt_succ_of_le h.seen_le))⟩

theorem close (h : w.Follows P seen) : w.close.Follows P seen := ⟨h.seen_le, h.value⟩

/-- The receiver is told, and goes on with a `P`. -/
theorem told (hc : w.changed seen = some (ok, seen')) (hP : P w.value) : w.Follows P seen' :=
  (changed_spec hc).1 ▸ borrow hP

/-- **It waits for nothing but a `P`**: any other value it is told at once. -/
theorem ready (h : w.Follows P seen) (hP : ¬ P w.value) :
    w.changed seen = some (true, w.version) :=
  if_pos fun heq => hP (h.value heq.symm)

/-- What it waits on is a `P`, from a sender that is still there. -/
theorem waits (h : w.Follows P seen) (hc : w.changed seen = none) :
    P w.value ∧ w.closed = false := by
  unfold changed at hc
  split at hc
  · cases hc
  · rename_i heq
    split at hc
    · cases hc
    · rename_i hclosed
      exact ⟨h.value (Classical.not_not.mp heq).symm, Bool.not_eq_true _ ▸ hclosed⟩

end Follows

end Watch

end Library
