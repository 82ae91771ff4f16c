import Mathlib.Tactic.Common

/-!
# Library — dialogues

A program that asks its environment questions, each answered by a value of the question's type, and
ends with a result or an error.  `Talk p es p'` is a talk: through the questions and answers `es`
the program `p` becomes `p'`.

`wp env ok post p s` is the weakest precondition of `p` in an environment that is itself a
transition system: every question is `ok` in the state it is asked in, and the result satisfies
`post`, whatever the environment answers by `env`.

* `wp_bind`, `wp_attempt`, `wp_mono`: the rules.
* `wp_ask`: what holds before a question holds after its answer, of what is left of the program.
* `Talk.keeps`: what every question that is ok keeps holds of every talk.
-/

namespace Library

/-- A program with questions of type `Q`, where `q` is answered by an `A q`. -/
inductive Dialogue (Q : Type) (A : Q → Type) (ε α : Type) where
  | done (res : Except ε α)
  | ask (q : Q) (k : A q → Dialogue Q A ε α)

namespace Dialogue

variable {Q : Type} {A : Q → Type} {ε α β : Type}

/-- A question with its answer. -/
abbrev Event (A : Q → Type) := (q : Q) × A q

protected def bind : Dialogue Q A ε α → (α → Dialogue Q A ε β) → Dialogue Q A ε β
  | .done (.ok a), f => f a
  | .done (.error e), _ => .done (.error e)
  | .ask q k, f => .ask q fun a => (k a).bind f

instance monad : Monad (Dialogue Q A ε) where
  pure a := .done (.ok a)
  bind := Dialogue.bind

def question (q : Q) : Dialogue Q A ε (A q) := .ask q fun a => .done (.ok a)

/-- Go on with a result, or fail with its error. -/
def ofExcept (res : Except ε α) : Dialogue Q A ε α := .done res

/-- The result of a program, its errors included. -/
def attempt : Dialogue Q A ε α → Dialogue Q A ε (Except ε α)
  | .done res => .done (.ok res)
  | .ask q k => .ask q fun a => (k a).attempt

instance lawfulMonad : LawfulMonad (Dialogue Q A ε) :=
  LawfulMonad.mk' _
    (fun {α} p => by
      induction p with
      | done res => cases res <;> rfl
      | ask q k ih => exact congrArg (Dialogue.ask q) (funext ih))
    (fun a f => rfl)
    (fun {α β γ} p f g => by
      induction p with
      | done res => cases res <;> rfl
      | ask q k ih => exact congrArg (Dialogue.ask q) (funext ih))

/-- A result is told from another by what is made of it. -/
theorem bind_pure_injective {g : α → β} (hg : Function.Injective g) :
    Function.Injective fun p : Dialogue Q A ε α => p >>= fun a => pure (g a) := by
  intro p
  induction p with
  | done res =>
      rintro (res' | ⟨q, k⟩) h
      · cases res <;> cases res' <;> simp_all [bind, Dialogue.bind, pure]
        exact hg h
      · cases res <;> cases h
  | ask q k ih =>
      rintro (res' | ⟨q', k'⟩) h
      · cases res' <;> cases h
      · obtain ⟨rfl, hk⟩ := Dialogue.ask.inj h
        exact congrArg (Dialogue.ask q) (funext fun a => ih a (congrFun (eq_of_heq hk) a))

/-! ### Talks -/

inductive Talk : Dialogue Q A ε α → List (Event A) → Dialogue Q A ε α → Prop where
  | nil {p : Dialogue Q A ε α} : Talk p [] p
  | cons {q : Q} {k : A q → Dialogue Q A ε α} {a : A q} {es : List (Event A)}
      {p : Dialogue Q A ε α} (h : Talk (k a) es p) : Talk (.ask q k) (⟨q, a⟩ :: es) p

theorem Talk.trans {p p' p'' : Dialogue Q A ε α} {es es' : List (Event A)} (h : Talk p es p')
    (h' : Talk p' es' p'') : Talk p (es ++ es') p'' := by
  induction h with
  | nil => exact h'
  | cons _ ih => exact .cons (ih h')

/-- One more question. -/
theorem Talk.snoc {p : Dialogue Q A ε α} {q : Q} {k : A q → Dialogue Q A ε α}
    {es : List (Event A)} (h : Talk p es (.ask q k)) (a : A q) : Talk p (es ++ [⟨q, a⟩]) (k a) :=
  h.trans (.cons .nil)

/-- How the talk of a program that asks begins. -/
theorem Talk.ask_cases {q : Q} {k : A q → Dialogue Q A ε α} {es : List (Event A)}
    {p : Dialogue Q A ε α} (h : Talk (.ask q k) es p) :
    es = [] ∧ p = .ask q k ∨ ∃ a es', es = ⟨q, a⟩ :: es' ∧ Talk (k a) es' p := by
  cases h with
  | nil => exact .inl ⟨rfl, rfl⟩
  | cons h => exact .inr ⟨_, _, rfl, h⟩

/-- A program that has ended says nothing more. -/
theorem Talk.done_cases {res : Except ε α} {es : List (Event A)} {p : Dialogue Q A ε α}
    (h : Talk (.done res) es p) : es = [] ∧ p = .done res := by
  cases h with
  | nil => exact ⟨rfl, rfl⟩

/-! ### Length -/

/-- At most `n` more questions. -/
inductive Within : Nat → Dialogue Q A ε α → Prop where
  | done {n : Nat} {res : Except ε α} : Within n (.done res)
  | ask {n : Nat} {q : Q} {k : A q → Dialogue Q A ε α} (h : ∀ a, Within n (k a)) :
      Within (n + 1) (.ask q k)

namespace Within

theorem mono {m n : Nat} {p : Dialogue Q A ε α} (h : Within m p) (hmn : m ≤ n) : Within n p := by
  induction h generalizing n with
  | done => exact .done
  | ask _ ih =>
      obtain ⟨n, rfl⟩ := Nat.exists_eq_add_of_le' (Nat.one_le_of_lt hmn)
      exact .ask fun a => ih a (Nat.le_of_succ_le_succ hmn)

theorem bind {m n : Nat} {p : Dialogue Q A ε α} {f : α → Dialogue Q A ε β} (h : Within m p)
    (hf : ∀ a, Within n (f a)) : Within (n + m) (p >>= f) := by
  induction h with
  | @done m res =>
      cases res with
      | ok a => exact (hf a).mono (Nat.le_add_right n m)
      | error e => exact .done
  | ask _ ih => exact .ask ih

theorem attempt {n : Nat} {p : Dialogue Q A ε α} (h : Within n p) : Within n p.attempt := by
  induction h with
  | done => exact .done
  | ask _ ih => exact .ask ih

end Within

/-! ### Weakest preconditions -/

section Wp

variable {σ : Type} (env : σ → Event A → σ → Prop) (ok : σ → Q → Prop)

def wp (post : Except ε α → σ → Prop) : Dialogue Q A ε α → σ → Prop
  | .done res, s => post res s
  | .ask q k, s => ok s q ∧ ∀ a s', env s ⟨q, a⟩ s' → wp post (k a) s'

variable {env ok}

@[simp] theorem wp_done {post : Except ε α → σ → Prop} {res : Except ε α} {s : σ} :
    wp env ok post (.done res) s ↔ post res s := Iff.rfl

/-- **The question is ok, and what is left of the program is.** -/
theorem wp_ask {post : Except ε α → σ → Prop} {q : Q} {k : A q → Dialogue Q A ε α} {s : σ} :
    wp env ok post (.ask q k) s ↔
      ok s q ∧ ∀ a s', env s ⟨q, a⟩ s' → wp env ok post (k a) s' := Iff.rfl

theorem wp_mono {post post' : Except ε α → σ → Prop} (hpost : ∀ res s, post res s → post' res s) :
    ∀ {p : Dialogue Q A ε α} {s : σ}, wp env ok post p s → wp env ok post' p s
  | .done res, s, h => hpost res s h
  | .ask _ _, _, h => ⟨h.1, fun a s' he => wp_mono hpost (h.2 a s' he)⟩

/-- **The rule of composition.**  An error ends the whole. -/
theorem wp_bind {post : Except ε β → σ → Prop} {f : α → Dialogue Q A ε β} :
    ∀ {p : Dialogue Q A ε α} {s : σ},
      wp env ok (fun res s => match res with
        | .ok a => wp env ok post (f a) s
        | .error e => post (.error e) s) p s → wp env ok post (p >>= f) s
  | .done (.ok _), _, h => h
  | .done (.error _), _, h => h
  | .ask _ _, _, h => ⟨h.1, fun a s' he => wp_bind (h.2 a s' he)⟩

/-- **The rule of `attempt`.**  Nothing ends the whole. -/
theorem wp_attempt {post : Except ε (Except ε α) → σ → Prop} :
    ∀ {p : Dialogue Q A ε α} {s : σ},
      wp env ok (fun res s => post (.ok res) s) p s → wp env ok post p.attempt s
  | .done _, _, h => h
  | .ask _ _, _, h => ⟨h.1, fun a s' he => wp_attempt (h.2 a s' he)⟩

end Wp

/-! ### Recorded talks -/

/-- The environment that answers anything, and whose state is the talk so far. -/
def logged (es : List (Event A)) (e : Event A) (es' : List (Event A)) : Prop := es' = es ++ [e]

variable {ok : List (Event A) → Q → Prop} {post : Except ε α → List (Event A) → Prop}

theorem wp_logged_ask {q : Q} {k : A q → Dialogue Q A ε α} {es : List (Event A)} :
    wp logged ok post (.ask q k) es ↔
      ok es q ∧ ∀ a, wp logged ok post (k a) (es ++ [⟨q, a⟩]) := by
  rw [wp_ask]
  refine and_congr_right fun _ => ⟨fun h a => h a _ rfl, fun h a es' he => ?_⟩
  obtain rfl : es' = es ++ [(⟨q, a⟩ : Event A)] := he
  exact h a

/-- **What every question that is ok keeps holds of every talk**, and of what is left of the
program the weakest precondition goes on to hold. -/
theorem Talk.keeps {P : List (Event A) → Prop}
    (hP : ∀ {es q} (a : A q), P es → ok es q → P (es ++ [⟨q, a⟩]))
    {p p' : Dialogue Q A ε α} {es : List (Event A)} (h : Talk p es p') :
    ∀ {es₀}, wp logged ok post p es₀ → P es₀ →
      P (es₀ ++ es) ∧ wp logged ok post p' (es₀ ++ es) := by
  induction h with
  | nil => exact fun hwp h₀ => by simpa using ⟨h₀, hwp⟩
  | @cons q k a es p _ ih =>
      intro es₀ hwp h₀
      obtain ⟨hok, hk⟩ := wp_logged_ask.mp hwp
      simpa using ih (hk a) (hP a h₀ hok)

end Dialogue

end Library
