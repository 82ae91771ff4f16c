import WavelogRelay.Library.Text

/-!
# Library — decimal numbers in text

`decimal n` is the decimal text of `n`, without leading zeros.  `parseUnsigned max` reads an
optional `+` and one or more digits whose value is at most `max`; `parseSigned lo hi` also reads
a `-`.  Reading what was written gives the number back (`parseUnsigned_decimal`).
-/

namespace Library

/-- The decimal text of `n`. -/
def decimal (n : Nat) : Text := Nat.toDigits 10 n

/-- The value of a non-empty text of decimal digits. -/
def digitsValue (s : Text) : Option Nat :=
  if s ≠ [] ∧ s.all Char.isDigit then some (Nat.ofDigitChars 10 s 0) else none

/-- An unsigned number of at most `max`: an optional `+`, then digits. -/
def parseUnsigned (max : Nat) (s : Text) : Option Nat :=
  match s with
  | '+' :: r => (digitsValue r).filter (· ≤ max)
  | _ => (digitsValue s).filter (· ≤ max)

/-- A number from `lo` to `hi`: an optional sign, then digits. -/
def parseSigned (lo hi : Int) (s : Text) : Option Int :=
  match s with
  | '+' :: r => ((digitsValue r).map Int.ofNat).filter fun n => lo ≤ n ∧ n ≤ hi
  | '-' :: r => ((digitsValue r).map fun n => -(n : Int)).filter fun n => lo ≤ n ∧ n ≤ hi
  | _ => ((digitsValue s).map Int.ofNat).filter fun n => lo ≤ n ∧ n ≤ hi

theorem decimal_ne_nil (n : Nat) : decimal n ≠ [] := Nat.toDigits_ne_nil

theorem isDigit_of_mem_decimal {n : Nat} {c : Char} (h : c ∈ decimal n) : c.isDigit :=
  Nat.isDigit_of_mem_toDigits (by decide) (by decide) h

theorem not_mem_decimal {c : Char} (hc : c.isDigit = false) (n : Nat) : c ∉ decimal n := by
  intro h
  have hd := isDigit_of_mem_decimal h
  rw [hc] at hd
  cases hd

@[simp] theorem digitsValue_decimal (n : Nat) : digitsValue (decimal n) = some n := by
  rw [digitsValue, if_pos ⟨decimal_ne_nil n, by simpa using fun c h => isDigit_of_mem_decimal h⟩]
  exact congrArg some (Nat.ofDigitChars_toDigits (by decide) (by decide))

theorem decimal_injective : Function.Injective decimal := fun m n h => by
  have := digitsValue_decimal n
  rw [← h, digitsValue_decimal] at this
  exact Option.some.inj this

/-- **Reading a written number gives it back.** -/
theorem parseUnsigned_decimal {n max : Nat} (h : n ≤ max) :
    parseUnsigned max (decimal n) = some n := by
  have hplus : ∀ r, decimal n ≠ '+' :: r := fun r e => by
    have : '+' ∈ decimal n := by simp [e]
    exact not_mem_decimal (by decide) n this
  unfold parseUnsigned
  split
  · rename_i e; exact absurd e (hplus _)
  · simp [h]

end Library
