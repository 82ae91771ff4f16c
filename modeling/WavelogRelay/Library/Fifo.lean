import Mathlib.Data.List.Nodup
import Mathlib.Tactic.Common

/-!
# Library — a bounded queue with keys

A queue is the list of its items, oldest first.  `push cap q x` puts `x` at the back and drops
from the front what exceeds `cap` (`dropped`); `delete key k q` takes out the items with key `k`.

* `length_push_le`, `length_delete_le`: the bound.
* `Sorted.push`, `Sorted.delete`: where the keys increase, they go on increasing as long as a
  pushed key is above all of them.
* `push_sublist`: what is wanted of a queue and is not dropped is still there, in order.
-/

namespace Library.Fifo

variable {α κ : Type*}

/-- What a push drops from the front. -/
def dropped (cap : Nat) (q : List α) : List α := q.take (q.length + 1 - cap)

def push (cap : Nat) (q : List α) (x : α) : List α := (q ++ [x]).drop (q.length + 1 - cap)

def delete [BEq κ] (key : α → κ) (k : κ) (q : List α) : List α := q.filter fun x => key x != k

theorem push_eq {cap : Nat} (hcap : 0 < cap) (q : List α) (x : α) :
    push cap q x = q.drop (q.length + 1 - cap) ++ [x] := by
  rw [push, List.drop_append_of_le_length (by omega)]

theorem dropped_append_push {cap : Nat} (hcap : 0 < cap) (q : List α) (x : α) :
    dropped cap q ++ push cap q x = q ++ [x] := by
  rw [push_eq hcap, dropped, ← List.append_assoc, List.take_append_drop]

/-- What was in the queue still is, or is dropped. -/
theorem mem_push_or_dropped {cap : Nat} (hcap : 0 < cap) {q : List α} {y : α} (hy : y ∈ q)
    (x : α) : y ∈ push cap q x ∨ y ∈ dropped cap q := by
  have hmem : y ∈ dropped cap q ++ push cap q x := by
    rw [dropped_append_push hcap]
    exact List.mem_append_left _ hy
  exact (List.mem_append.mp hmem).symm

/-- Below the bound nothing is dropped. -/
theorem push_of_lt {cap : Nat} {q : List α} (h : q.length < cap) (x : α) :
    push cap q x = q ++ [x] := by
  rw [push, Nat.sub_eq_zero_of_le h, List.drop_zero]

theorem dropped_of_lt {cap : Nat} {q : List α} (h : q.length < cap) : dropped cap q = [] := by
  rw [dropped, Nat.sub_eq_zero_of_le h, List.take_zero]

theorem length_push_le {cap : Nat} (q : List α) (x : α) : (push cap q x).length ≤ cap := by
  rw [push, List.length_drop, List.length_append, List.length_singleton]
  omega

theorem push_sublist_append (cap : Nat) (q : List α) (x : α) :
    (push cap q x).Sublist (q ++ [x]) := List.drop_sublist _ _

/-- **What is wanted of a queue and is not dropped is still there**, in order. -/
theorem push_sublist {cap : Nat} (hcap : 0 < cap) {l q : List α} (h : l.Sublist q) {p : α → Bool}
    (hp : ∀ y ∈ dropped cap q, p y = false) (x : α) :
    (l.filter p ++ [x]).Sublist (push cap q x) := by
  rw [push_eq hcap]
  refine List.Sublist.append ?_ (List.Sublist.refl _)
  rw [← List.take_append_drop (q.length + 1 - cap) q] at h
  obtain ⟨l₁, l₂, rfl, h₁, h₂⟩ := List.sublist_append_iff.mp h
  have hnil : l₁.filter p = [] :=
    List.filter_eq_nil_iff.mpr fun y hy => by simp [hp y (h₁.subset hy)]
  rw [List.filter_append, hnil, List.nil_append]
  exact List.filter_sublist.trans h₂

section Delete

variable [BEq κ] {key : α → κ} {k : κ}

theorem delete_sublist (q : List α) : (delete key k q).Sublist q := List.filter_sublist

theorem length_delete_le (q : List α) : (delete key k q).length ≤ q.length :=
  List.length_filter_le _ _

/-- A deletion that takes nothing out. -/
theorem delete_eq_self {q : List α} (h : (delete key k q).length = q.length) :
    delete key k q = q := (delete_sublist q).eq_of_length h

end Delete

/-- The keys increase. -/
def Sorted [LT κ] (key : α → κ) (q : List α) : Prop := q.Pairwise fun x y => key x < key y

namespace Sorted

variable [LT κ] {key : α → κ} {q : List α}

theorem nil : Sorted key ([] : List α) := List.Pairwise.nil

theorem sublist {q' : List α} (h : Sorted key q) (hs : q'.Sublist q) : Sorted key q' :=
  List.Pairwise.sublist hs h

theorem append_singleton (h : Sorted key q) {x : α} (hx : ∀ y ∈ q, key y < key x) :
    Sorted key (q ++ [x]) := by
  rw [Sorted, List.pairwise_append]
  exact ⟨h, List.pairwise_singleton _ _, fun y hy z hz => List.mem_singleton.mp hz ▸ hx y hy⟩

/-- A key is the key of one item only. -/
theorem eq_of_key (hirrefl : ∀ k : κ, ¬ k < k) (h : Sorted key q) {x y : α} (hx : x ∈ q)
    (hy : y ∈ q) (he : key x = key y) : x = y := by
  have hne : q.Pairwise fun x y => key x ≠ key y := List.Pairwise.imp (fun {x y} hlt heq => by
    rw [heq] at hlt
    exact hirrefl _ hlt) h
  have hnodup : (q.map key).Nodup := List.pairwise_map.mpr hne
  exact List.inj_on_of_nodup_map hnodup hx hy he

theorem push (h : Sorted key q) (cap : Nat) {x : α} (hx : ∀ y ∈ q, key y < key x) :
    Sorted key (Fifo.push cap q x) := (h.append_singleton hx).sublist (push_sublist_append cap q x)

theorem delete [BEq κ] (h : Sorted key q) (k : κ) : Sorted key (Fifo.delete key k q) :=
  h.sublist (delete_sublist q)

end Sorted

end Library.Fifo
