import Mathlib.Data.List.Induction
import Mathlib.Tactic.Common

/-!
# Library — runs of a step relation

A step relation `step s a s'` takes a state to a state by an act `a`.  `Run step C s₀ tr s` is a
run from `s₀` to `s` through the acts `tr`, in order, each of which meets the condition `C` in
the state it is taken in.  With `C` always true it is any run.

* `Run.invariant`: what holds at the start and is kept by every step holds of every run, as a
  relation between the acts so far and the state.
* `Run.trans`, `Run.of_append`: runs compose, and a run is cut between any two acts.
* `Run.simulate`, `Run.forward`: a run seen through an abstraction, or a relation, is a run.
* `Run.spent`, `Run.exists_done`: a system that spends an allowance, which others add to, stops
  when it is spent.
-/

namespace Library

variable {σ α : Type*}

/-- A run: the acts `tr`, in order, each a step that meets `C`. -/
inductive Run (step : σ → α → σ → Prop) (C : σ → α → Prop) (s₀ : σ) : List α → σ → Prop where
  | nil : Run step C s₀ [] s₀
  | snoc {tr : List α} {s s' : σ} {a : α}
      (h : Run step C s₀ tr s) (hC : C s a) (hs : step s a s') : Run step C s₀ (tr ++ [a]) s'

/-- No condition. -/
def Always (_ : σ) (_ : α) : Prop := True

namespace Run

variable {step : σ → α → σ → Prop} {C C' : σ → α → Prop} {s₀ s m : σ} {tr tr₁ tr₂ : List α}

/-- **The invariant rule.**  What holds of no acts at the start, and is kept by each step that
meets the condition, holds of every run. -/
theorem invariant {I : List α → σ → Prop} (h₀ : I [] s₀)
    (hstep : ∀ {tr s a s'}, Run step C s₀ tr s → I tr s → C s a → step s a s' →
      I (tr ++ [a]) s') (h : Run step C s₀ tr s) : I tr s := by
  induction h with
  | nil => exact h₀
  | snoc h hC hs ih => exact hstep h ih hC hs

/-- One more step; the condition comes last, when the act is known. -/
theorem extend {s' : σ} {a : α} (h : Run step C s₀ tr s) (hs : step s a s') (hC : C s a) :
    Run step C s₀ (tr ++ [a]) s' := .snoc h hC hs

/-- Another condition, that the acts of the run meet where they meet the first. -/
theorem mono_on (hC : ∀ s, ∀ a ∈ tr, C s a → C' s a) (h : Run step C s₀ tr s) :
    Run step C' s₀ tr s := by
  induction h with
  | nil => exact .nil
  | snoc _ hc hs ih =>
      refine .snoc (ih fun s a ha => hC s a (List.mem_append_left _ ha)) ?_ hs
      exact hC _ _ (List.mem_append_right _ (List.mem_singleton_self _)) hc

theorem mono (hC : ∀ s a, C s a → C' s a) (h : Run step C s₀ tr s) : Run step C' s₀ tr s :=
  h.mono_on fun s a _ => hC s a

/-- A condition that the acts meet by themselves. -/
theorem restrict {D : α → Prop} (h : Run step C s₀ tr s) (hD : ∀ a ∈ tr, D a) :
    Run step (fun _ a => D a) s₀ tr s := h.mono_on fun _ a ha _ => hD a ha

theorem one {a : α} (hC : C s₀ a) (hs : step s₀ a s) : Run step C s₀ [a] s := .snoc .nil hC hs

theorem trans (h₁ : Run step C s₀ tr₁ m) (h₂ : Run step C m tr₂ s) :
    Run step C s₀ (tr₁ ++ tr₂) s := by
  induction h₂ with
  | nil => simpa using h₁
  | snoc _ hC hs ih => rw [← List.append_assoc]; exact .snoc ih hC hs

/-- One more step at the start. -/
theorem cons {a : α} (hC : C s₀ a) (hs : step s₀ a m) (h : Run step C m tr s) :
    Run step C s₀ (a :: tr) s := (one hC hs).trans h

theorem eq_of_nil (h : Run step C s₀ [] s) : s = s₀ := by
  refine h.invariant (I := fun tr s => tr = [] → s = s₀) (fun _ => rfl) ?_ rfl
  intro tr s a s' _ _ _ _ htr
  cases List.append_eq_nil_iff.mp htr |>.2

/-- A run through `tr₁ ++ tr₂` passes through a state between the two. -/
theorem of_append (h : Run step C s₀ (tr₁ ++ tr₂) s) :
    ∃ m, Run step C s₀ tr₁ m ∧ Run step C m tr₂ s := by
  induction tr₂ using List.reverseRecOn generalizing s with
  | nil => exact ⟨s, by simpa using h, .nil⟩
  | append_singleton tr₂ a ih =>
      rw [← List.append_assoc] at h
      generalize e : tr₁ ++ tr₂ ++ [a] = t at h
      cases h with
      | nil => simp at e
      | snoc h hC hs =>
          obtain ⟨rfl, rfl⟩ := List.append_singleton_inj.mp e
          obtain ⟨m, h₁, h₂⟩ := ih h
          exact ⟨m, h₁, .snoc h₂ hC hs⟩

/-- The step a run takes at an act of its trace. -/
theorem step_at {a : α} (h : Run step C s₀ (tr₁ ++ a :: tr₂) s) :
    ∃ m m', Run step C s₀ tr₁ m ∧ C m a ∧ step m a m' ∧ Run step C m' tr₂ s := by
  rw [show tr₁ ++ a :: tr₂ = (tr₁ ++ [a]) ++ tr₂ by simp] at h
  obtain ⟨m', h', h₂⟩ := of_append h
  generalize e : tr₁ ++ [a] = t at h'
  cases h' with
  | nil => simp at e
  | snoc h₁ hC hs =>
      obtain ⟨rfl, rfl⟩ := List.append_singleton_inj.mp e
      exact ⟨_, m', h₁, hC, hs, h₂⟩

/-- **A run seen through an abstraction is a run**, when each step is one of the other relation or
leaves the abstract state as it is. -/
theorem simulate {τ β : Type*} {step' : τ → β → τ → Prop} {C' : τ → β → Prop} (abs : σ → τ)
    (label : α → Option β)
    (hnone : ∀ {s a s'}, step s a s' → label a = none → abs s' = abs s)
    (hsome : ∀ {s a s' b}, C s a → step s a s' → label a = some b →
      C' (abs s) b ∧ step' (abs s) b (abs s'))
    (h : Run step C s₀ tr s) : Run step' C' (abs s₀) (tr.filterMap label) (abs s) := by
  induction h with
  | nil => exact .nil
  | @snoc tr s s' a h hC hs ih =>
      rw [List.filterMap_append]
      cases hl : label a with
      | none => simpa [hl, hnone hs hl] using ih
      | some b =>
          obtain ⟨hC', hs'⟩ := hsome hC hs hl
          simpa [hl] using ih.extend hs' hC'

/-- **Forward simulation.**  Where every step keeps the relation to some state of another system,
which takes the step that is seen of it, if any, a run is seen as a run of that system. -/
theorem forward {τ β : Type*} {step' : τ → β → τ → Prop} (Rel : τ → σ → Prop)
    (label : α → Option β)
    (hstep : ∀ {t s a s'}, Rel t s → C s a → step s a s' →
      ∃ t', Rel t' s' ∧ (label a = none ∧ t' = t ∨ ∃ b, label a = some b ∧ step' t b t'))
    {t₀ : τ} (h₀ : Rel t₀ s₀) (h : Run step C s₀ tr s) :
    ∃ t, Rel t s ∧ Run step' Always t₀ (tr.filterMap label) t := by
  induction h with
  | nil => exact ⟨t₀, h₀, .nil⟩
  | @snoc tr s s' a _ hC hs ih =>
      obtain ⟨t, hrel, hrun⟩ := ih
      obtain ⟨t', hrel', ⟨hl, rfl⟩ | ⟨b, hl, hs'⟩⟩ := hstep hrel hC hs
      · exact ⟨t', hrel', by simpa [hl] using hrun⟩
      · exact ⟨t', hrel', by simpa [hl] using hrun.extend hs' trivial⟩

/-! ### Allowances -/

section Spent

variable (Bound : Nat → σ → Prop) {n : Nat}

/-- **The rule of the allowance.**  If each own act spends some of an allowance, to which an act
that brings work adds at most `k` and no other adds, then the own acts of a run are no more than
the allowance and what was added. -/
theorem spent (own work : α → Bool) (k : Nat)
    (hstep : ∀ {s a s' n}, C s a → step s a s' → Bound n s →
      ∃ m, Bound m s' ∧ m + (own a).toNat ≤ n + k * (work a).toNat)
    (h₀ : Bound n s₀) (h : Run step C s₀ tr s) :
    ∃ m, Bound m s ∧ m + tr.countP own ≤ n + k * tr.countP work := by
  induction h with
  | nil => exact ⟨n, h₀, Nat.le_refl _⟩
  | @snoc tr s s' a h hC hs ih =>
      obtain ⟨m, hm, hle⟩ := ih
      obtain ⟨m', hm', hle'⟩ := hstep hC hs hm
      refine ⟨m', hm', ?_⟩
      have hcount : ∀ f : α → Bool, (tr ++ [a]).countP f = tr.countP f + (f a).toNat := fun f => by
        cases hf : f a <;> simp [hf]
      rw [hcount, hcount, Nat.mul_add]
      omega

/-- **Where there is always something to do**, all of it can be done. -/
theorem exists_done (Inv Done : σ → Prop)
    (hstep : ∀ {s a s'}, Inv s → C s a → step s a s' → Inv s')
    (hnext : ∀ {s n}, Inv s → Bound n s → ¬ Done s →
      ∃ a s' m, step s a s' ∧ C s a ∧ m < n ∧ Bound m s')
    (hi : Inv s) (hb : Bound n s) : ∃ tr s', Run step C s tr s' ∧ Done s' := by
  induction n using Nat.strongRecOn generalizing s with
  | ind n ih =>
      by_cases hd : Done s
      · exact ⟨[], s, .nil, hd⟩
      · obtain ⟨a, s', m, hs, hC, hlt, hb'⟩ := hnext hi hb hd
        obtain ⟨tr, s'', h, hd'⟩ := ih m hlt (hstep hi hC hs) hb'
        exact ⟨a :: tr, s'', h.cons hC hs, hd'⟩

end Spent

end Run

end Library
