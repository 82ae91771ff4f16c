import Mathlib.Data.List.Basic
import Mathlib.Tactic.Common

/-!
# Library — what is observed of a run

`obs s a` is what is seen of an act `a` taken in the state `s`, if anything is.
`Observed step C obs s₀ bs s` is a run from `s₀` to `s`, each act of which meets `C`, of which the
observations `bs` are made, in order.

* `Observed.invariant`: what every step keeps holds of every run.
* `Observed.erase`: a run whose steps are silent or steps of another relation, through an
  abstraction of the states, is a run of that relation, with the same observations.
-/

namespace Library

variable {σ α β : Type*}

inductive Observed (step : σ → α → σ → Prop) (C : σ → α → Prop) (obs : σ → α → Option β)
    (s₀ : σ) : List β → σ → Prop where
  | nil : Observed step C obs s₀ [] s₀
  | snoc {bs : List β} {s s' : σ} {a : α} (h : Observed step C obs s₀ bs s) (hC : C s a)
      (hs : step s a s') : Observed step C obs s₀ (bs ++ (obs s a).toList) s'

namespace Observed

variable {step : σ → α → σ → Prop} {C : σ → α → Prop} {obs : σ → α → Option β} {s₀ s m : σ}
  {bs : List β} {a : α}

/-- **The invariant rule.** -/
theorem invariant {I : List β → σ → Prop} (h₀ : I [] s₀)
    (hstep : ∀ {bs s a s'}, I bs s → C s a → step s a s' → I (bs ++ (obs s a).toList) s')
    (h : Observed step C obs s₀ bs s) : I bs s := by
  induction h with
  | nil => exact h₀
  | snoc _ hC hs ih => exact hstep ih hC hs

theorem mono {C' : σ → α → Prop} (hC : ∀ s a, C s a → C' s a)
    (h : Observed step C obs s₀ bs s) : Observed step C' obs s₀ bs s := by
  induction h with
  | nil => exact .nil
  | snoc _ hc hs ih => exact .snoc ih (hC _ _ hc) hs

theorem trans {cs : List β} (h₁ : Observed step C obs s₀ bs m) (h₂ : Observed step C obs m cs s) :
    Observed step C obs s₀ (bs ++ cs) s := by
  induction h₂ with
  | nil => simpa using h₁
  | snoc _ hC hs ih =>
      rw [← List.append_assoc]
      exact .snoc ih hC hs

/-- One more step at the start, of which nothing is seen; the condition comes when the act is
known. -/
theorem silent (hs : step s₀ a m) (hC : C s₀ a) (ho : obs s₀ a = none)
    (h : Observed step C obs m bs s) : Observed step C obs s₀ bs s := by
  have h₁ : Observed step C obs s₀ ([] ++ (obs s₀ a).toList) m := .snoc .nil hC hs
  rw [ho] at h₁
  exact h₁.trans h

/-- One more step at the start, of which `b` is seen. -/
theorem seen {b : β} (hs : step s₀ a m) (hC : C s₀ a) (ho : obs s₀ a = some b)
    (h : Observed step C obs m bs s) : Observed step C obs s₀ (b :: bs) s := by
  have h₁ : Observed step C obs s₀ ([] ++ (obs s₀ a).toList) m := .snoc .nil hC hs
  rw [ho] at h₁
  exact h₁.trans h

/-- **A run without its silent steps**, on states that satisfy an invariant. -/
theorem erase {τ α' : Type*} {step' : τ → α' → τ → Prop} {C' : τ → α' → Prop}
    {obs' : τ → α' → Option β} {I : σ → Prop} (abs : σ → τ) (h₀ : I s₀)
    (hkeep : ∀ {s a s'}, I s → C s a → step s a s' → I s')
    (hstep : ∀ {s a s'}, I s → C s a → step s a s' →
      (obs s a = none ∧ abs s' = abs s) ∨
        ∃ a', C' (abs s) a' ∧ step' (abs s) a' (abs s') ∧ obs' (abs s) a' = obs s a)
    (h : Observed step C obs s₀ bs s) :
    I s ∧ Observed step' C' obs' (abs s₀) bs (abs s) := by
  induction h with
  | nil => exact ⟨h₀, .nil⟩
  | snoc _ hC hs ih =>
      obtain ⟨hI, hrun⟩ := ih
      refine ⟨hkeep hI hC hs, ?_⟩
      rcases hstep hI hC hs with ⟨ho, habs⟩ | ⟨a', hC', hs', ho⟩
      · rw [ho, habs]
        simpa using hrun
      · rw [← ho]
        exact .snoc hrun hC' hs'

end Observed

end Library
