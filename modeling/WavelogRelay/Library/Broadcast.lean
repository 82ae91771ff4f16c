import WavelogRelay.Library.Fifo

/-!
# Library — a broadcast channel

A broadcast channel keeps the last values sent, up to its capacity, and counts all of them.  A
receiver has the number of the value it reads next.  When that value is overwritten it is told
that it lags behind, and goes on with the oldest one that is left.  A send never waits.

* `Holds`: the channel has the last values of a history.
* `Holds.recv`: a receiver gets the value of the history at its number, unless it lags by more
  than the capacity; `Holds.of_recv_none`: it waits for no value that was sent.
-/

namespace Library

/-- The last values sent, oldest first, and how many were sent in all. -/
structure Broadcast (α : Type*) where
  capacity : Nat
  slots : List α
  sent : Nat
  deriving DecidableEq, Repr

inductive Received (α : Type*) where
  | value (x : α)
  | lagged
  deriving DecidableEq, Repr

namespace Broadcast

variable {α : Type*}

def new (capacity : Nat) : Broadcast α := { capacity, slots := [], sent := 0 }

def send (b : Broadcast α) (x : α) : Broadcast α :=
  { b with slots := Fifo.push b.capacity b.slots x, sent := b.sent + 1 }

/-- The number of the oldest value that is left. -/
def oldest (b : Broadcast α) : Nat := b.sent - b.slots.length

/-- What a receiver at `next` gets, when it need not wait, and its number then. -/
def recv (b : Broadcast α) (next : Nat) : Option (Received α × Nat) :=
  if next < b.oldest then some (.lagged, b.oldest)
  else b.slots[next - b.oldest]?.map fun x => (.value x, next + 1)

/-- The channel has the last values of the history `hist`. -/
structure Holds (b : Broadcast α) (hist : List α) : Prop where
  sent : b.sent = hist.length
  slots : b.slots <:+ hist
  length : b.slots.length = min hist.length b.capacity

variable {b : Broadcast α} {hist : List α} {next next' : Nat}

theorem holds_new (capacity : Nat) : (new capacity : Broadcast α).Holds [] :=
  ⟨rfl, List.suffix_rfl, (Nat.zero_min _).symm⟩

theorem Holds.send (h : b.Holds hist) (x : α) : (b.send x).Holds (hist ++ [x]) := by
  refine ⟨?_, ?_, ?_⟩
  · rw [List.length_append, List.length_singleton, ← h.sent]
    rfl
  · obtain ⟨before, hbefore⟩ := h.slots
    refine (List.drop_suffix _ _).trans ⟨before, ?_⟩
    rw [← List.append_assoc, hbefore]
  · have hlen := h.length
    change (Fifo.push b.capacity b.slots x).length = min (hist ++ [x]).length b.capacity
    rw [Fifo.push, List.length_drop, List.length_append, List.length_append,
      List.length_singleton]
    omega

/-- **What a receiver gets** is the value at its number, unless it is more than the capacity
behind. -/
theorem Holds.recv (h : b.Holds hist) (next : Nat) :
    b.recv next =
      if next + b.capacity < hist.length then some (.lagged, hist.length - b.capacity)
      else hist[next]?.map fun x => (.value x, next + 1) := by
  have hlen := h.length
  have holdest : b.oldest = hist.length - b.capacity := by
    rw [oldest, h.sent]
    omega
  unfold Broadcast.recv
  by_cases hlag : next + b.capacity < hist.length
  · rw [if_pos (by omega), if_pos hlag, holdest]
  · rw [if_neg (by omega), if_neg hlag]
    obtain ⟨before, rfl⟩ := h.slots
    have hbefore : b.oldest = before.length := by
      rw [List.length_append] at holdest hlen
      omega
    by_cases hle : before.length ≤ next
    · rw [hbefore, List.getElem?_append_right hle]
    · rw [List.length_append] at hlag hlen
      omega

theorem recv_spec (h : b.Holds hist) {r : Received α} (hr : b.recv next = some (r, next')) :
    r = .lagged ∧ next + b.capacity < hist.length ∨
      ∃ x, r = .value x ∧ hist[next]? = some x ∧ next' = next + 1 := by
  rw [h.recv] at hr
  split at hr
  · rename_i hlag
    cases hr
    exact .inl ⟨rfl, hlag⟩
  · obtain ⟨x, hx, hr⟩ := Option.map_eq_some_iff.mp hr
    cases hr
    exact .inr ⟨x, rfl, hx, rfl⟩

/-- A receiver that waits has got all that was sent. -/
theorem Holds.of_recv_none (h : b.Holds hist) (hr : b.recv next = none) : hist.length ≤ next := by
  rw [h.recv] at hr
  split at hr
  · cases hr
  · exact List.getElem?_eq_none_iff.mp (Option.map_eq_none_iff.mp hr)

end Broadcast

end Library
