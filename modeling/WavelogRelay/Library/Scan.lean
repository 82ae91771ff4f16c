import Mathlib.Data.List.Induction
import Mathlib.Data.List.TakeWhile
import WavelogRelay.Library.Decimal

/-!
# Library — scanning numbers off the front of a text

A `Scan` reads a value off the front of a text and leaves the rest; where it fails it has read
nothing.  `numeral radix n` is the text of `n` in a radix up to 16, without leading zeros, and
`number` reads one, under the bounds of its `NumberSyntax`.

* `number_numeral`: what is written is read back.
* `number_eq_some`: all that is read; `numeral_of_canonical`: digits without a leading zero are the
  numeral of their value.
-/

namespace Library

abbrev Scan (α : Type) := Text → Option (α × Text)

/-- One character, which is dropped. -/
def given (c : Char) : Text → Option Text
  | d :: s => if d = c then some s else none
  | [] => none

/-- What is left does not go on with such a character. -/
def Ends (p : Char → Bool) (rest : Text) : Prop := ∀ c ∈ rest.head?, p c = false

theorem given_eq_some_iff {c : Char} {s rest : Text} : given c s = some rest ↔ s = c :: rest := by
  cases s with
  | nil => exact ⟨fun h => (by cases h), fun h => (by cases h)⟩
  | cons d s =>
      rw [given]
      constructor
      · intro h
        split at h
        · rename_i hd
          cases h
          rw [hd]
        · cases h
      · intro h
        cases h
        exact if_pos rfl

@[simp] theorem given_cons (c : Char) (s : Text) : given c (c :: s) = some s := if_pos rfl

/-! ### Digits -/

/-- The value of a digit, for a radix up to 16. -/
def toDigit (radix : Nat) (c : Char) : Option Nat :=
  let d :=
    if c.isDigit then some (c.toNat - 48)
    else if 'a' ≤ c ∧ c ≤ 'f' then some (c.toNat - 87)
    else if 'A' ≤ c ∧ c ≤ 'F' then some (c.toNat - 55)
    else none
  d.filter (· < radix)

def isDigitOf (radix : Nat) (c : Char) : Bool := (toDigit radix c).isSome

def numeral (radix n : Nat) : Text := Nat.toDigits radix n

/-- The value of a text of digits. -/
def numeralValue (radix : Nat) (ds : Text) : Nat :=
  ds.foldl (fun n c => n * radix + (toDigit radix c).getD 0) 0

@[simp] theorem numeralValue_snoc (radix : Nat) (ds : Text) (c : Char) :
    numeralValue radix (ds ++ [c]) =
      numeralValue radix ds * radix + (toDigit radix c).getD 0 := by
  rw [numeralValue, List.foldl_append]
  rfl

theorem toDigit_digitChar {radix d : Nat} (hr : radix ≤ 16) (hd : d < radix) :
    toDigit radix (Nat.digitChar d) = some d := by
  have hall : ∀ d < 16, toDigit 16 (Nat.digitChar d) = some d := by decide
  have h := hall d (Nat.lt_of_lt_of_le hd hr)
  simp only [toDigit, Option.filter_eq_some_iff] at h ⊢
  exact ⟨h.1, decide_eq_true hd⟩

theorem numeral_eq_if {radix n : Nat} (hr : 1 < radix) :
    numeral radix n =
      if n < radix then [Nat.digitChar n]
      else numeral radix (n / radix) ++ [Nat.digitChar (n % radix)] := Nat.toDigits_eq_if hr

theorem numeral_ne_nil (radix n : Nat) : numeral radix n ≠ [] := Nat.toDigits_ne_nil

/-- What holds of the last digit, and of more digits when it does of those before, holds of a
numeral. -/
theorem numeral_induction {radix : Nat} (hr : 1 < radix) {P : Nat → Text → Prop}
    (hlast : ∀ n < radix, P n [Nat.digitChar n])
    (hmore : ∀ n, radix ≤ n → P (n / radix) (numeral radix (n / radix)) →
      P n (numeral radix (n / radix) ++ [Nat.digitChar (n % radix)])) (n : Nat) :
    P n (numeral radix n) := by
  induction n using Nat.strongRecOn with
  | ind n ih =>
      rw [numeral_eq_if hr]
      split
      · rename_i hn
        exact hlast n hn
      · rename_i hn
        have hle := Nat.not_lt.mp hn
        have hpos := Nat.lt_of_lt_of_le (Nat.lt_of_succ_lt hr) hle
        exact hmore n hle (ih _ (Nat.div_lt_self hpos hr))

/-- **A numeral has its value.** -/
theorem numeralValue_numeral {radix : Nat} (h1 : 1 < radix) (h16 : radix ≤ 16) (n : Nat) :
    numeralValue radix (numeral radix n) = n := by
  refine numeral_induction h1 (P := fun n ds => numeralValue radix ds = n) ?_ ?_ n
  · intro n hn
    simp [numeralValue, toDigit_digitChar h16 hn]
  · intro n _ ih
    have hmod := Nat.mod_lt n (Nat.lt_of_succ_lt h1)
    rw [numeralValue_snoc, ih, toDigit_digitChar h16 hmod, Option.getD_some, Nat.div_add_mod']

theorem isDigitOf_numeral {radix : Nat} (h1 : 1 < radix) (h16 : radix ≤ 16) (n : Nat) :
    ∀ c ∈ numeral radix n, isDigitOf radix c = true := by
  have hdigit : ∀ d < radix, isDigitOf radix (Nat.digitChar d) = true := fun d hd => by
    rw [isDigitOf, toDigit_digitChar h16 hd]
    rfl
  refine numeral_induction h1 (P := fun _ ds => ∀ c ∈ ds, isDigitOf radix c = true) ?_ ?_ n
  · intro n hn c hc
    rw [List.mem_singleton.mp hc]
    exact hdigit n hn
  · intro n _ ih c hc
    rcases List.mem_append.mp hc with hc | hc
    · exact ih c hc
    · rw [List.mem_singleton.mp hc]
      exact hdigit _ (Nat.mod_lt n (Nat.lt_of_succ_lt h1))

/-- Only zero has a leading zero. -/
theorem head_numeral {radix : Nat} (h1 : 1 < radix) {n : Nat}
    (h : (numeral radix n).head? = some '0') : n = 0 := by
  revert h
  refine numeral_induction h1 (P := fun n ds => ds.head? = some '0' → n = 0) ?_ ?_ n
  · intro n _ h
    exact Nat.digitChar_eq_zero.mp (Option.some.inj h)
  · intro n hle ih h
    rw [List.head?_append_of_ne_nil _ (numeral_ne_nil _ _)] at h
    have hzero := Nat.div_eq_zero_iff.mp (ih h)
    omega

theorem digitChar_of_isDigitOf {c : Char} (h : isDigitOf 10 c = true) :
    ∃ d < 10, toDigit 10 c = some d ∧ Nat.digitChar d = c := by
  obtain ⟨d, hd⟩ := Option.isSome_iff_exists.mp h
  have hval := hd
  rw [toDigit, Option.filter_eq_some_iff] at hval
  obtain ⟨hval, hlt⟩ := hval
  have hlt : d < 10 := of_decide_eq_true hlt
  refine ⟨d, hlt, hd, ?_⟩
  split at hval
  · rename_i hdigit
    have hlo : 48 ≤ c.toNat := (Char.isDigit_iff_toNat.mp hdigit).1
    cases hval
    refine Char.toNat_inj.mp ?_
    rw [Nat.toNat_digitChar_of_lt_ten hlt]
    omega
  split at hval
  · rename_i hletter
    have hlo : 97 ≤ c.toNat := hletter.1
    cases hval
    omega
  split at hval
  · rename_i hletter
    have hlo : 65 ≤ c.toNat := hletter.1
    cases hval
    omega
  · cases hval

theorem toDigit_of_isDigit {c : Char} (h : c.isDigit = true) :
    toDigit 10 c = some (c.toNat - '0'.toNat) := by
  have hlt : c.toNat - 48 < 10 := by
    have hhi : c.toNat ≤ 57 := (Char.isDigit_iff_toNat.mp h).2
    omega
  simp [toDigit, h, Option.filter, hlt]

/-- The value of decimal digits, as a number that is parsed and as one that is scanned. -/
theorem numeralValue_of_digitsValue {ds : Text} {n : Nat} (h : digitsValue ds = some n) :
    ds ≠ [] ∧ (∀ c ∈ ds, isDigitOf 10 c = true) ∧ numeralValue 10 ds = n := by
  rw [digitsValue, Option.ite_none_right_eq_some] at h
  obtain ⟨⟨hne, hall⟩, hvalue⟩ := h
  have hall := List.all_eq_true.mp hall
  refine ⟨hne, fun c hc => Option.isSome_iff_exists.mpr ⟨_, toDigit_of_isDigit (hall c hc)⟩, ?_⟩
  rw [← Option.some.inj hvalue, numeralValue, Nat.ofDigitChars_eq_foldl]
  refine List.foldl_ext _ _ _ fun n c hc => ?_
  rw [toDigit_of_isDigit (hall c hc), Option.getD_some, Nat.mul_comm]

theorem isDigitOf_mono {radix radix' : Nat} (h : radix ≤ radix') {c : Char}
    (hc : isDigitOf radix c = true) : isDigitOf radix' c = true := by
  obtain ⟨d, hd⟩ := Option.isSome_iff_exists.mp hc
  rw [toDigit, Option.filter_eq_some_iff] at hd
  refine Option.isSome_iff_exists.mpr ⟨d, ?_⟩
  rw [toDigit, Option.filter_eq_some_iff]
  exact ⟨hd.1, decide_eq_true (Nat.lt_of_lt_of_le (of_decide_eq_true hd.2) h)⟩

/-- **Digits without a leading zero are the numeral of their value.** -/
theorem numeral_of_canonical {ds : Text} (hne : ds ≠ []) (hall : ∀ c ∈ ds, isDigitOf 10 c = true)
    (hzero : ds.head? = some '0' → ds.length = 1) : numeral 10 (numeralValue 10 ds) = ds := by
  induction ds using List.reverseRecOn with
  | nil => exact absurd rfl hne
  | append_singleton ds c ih =>
      obtain ⟨d, hd, hc, hchar⟩ :=
        digitChar_of_isDigitOf (hall c (List.mem_append_right _ (List.mem_singleton.mpr rfl)))
      rw [numeralValue_snoc, hc, Option.getD_some]
      cases ds with
      | nil =>
          have hv : numeralValue 10 [] * 10 + d = d := by rw [numeralValue, List.foldl_nil]; omega
          rw [hv, numeral_eq_if (by decide), if_pos hd, hchar, List.nil_append]
      | cons b ds =>
          have hhead : (b :: ds).head? ≠ some '0' := by
            intro h
            have hlen := hzero h
            simp at hlen
          have hnum : numeral 10 (numeralValue 10 (b :: ds)) = b :: ds :=
            ih (List.cons_ne_nil _ _) (fun x hx => hall x (List.mem_append_left _ hx))
              fun h => absurd h hhead
          have hpos : numeralValue 10 (b :: ds) ≠ 0 := by
            intro h
            rw [h] at hnum
            exact hhead (by rw [← hnum]; rfl)
          generalize numeralValue 10 (b :: ds) = v at hnum hpos ⊢
          rw [numeral_eq_if (by decide), if_neg (by omega), ← hnum, ← hchar]
          congr 3 <;> omega

/-! ### Numbers -/

/-- What is asked of a number: its radix, how many digits it may have, whether it may have a
leading zero before others, and its largest value. -/
structure NumberSyntax where
  radix : Nat
  maxDigits : Option Nat
  allowZeroPrefix : Bool
  max : Nat

/-- The digits are no number. -/
def NumberSyntax.refuses (N : NumberSyntax) (ds : Text) : Bool :=
  ds = [] || N.maxDigits.any (· < ds.length) ||
    (!N.allowZeroPrefix && ds.head? = some '0' && 1 < ds.length) || N.max < numeralValue N.radix ds

theorem refuses_eq_false_iff {N : NumberSyntax} {ds : Text} :
    N.refuses ds = false ↔ ds ≠ [] ∧ (∀ m ∈ N.maxDigits, ds.length ≤ m) ∧
      (N.allowZeroPrefix = true ∨ (ds.head? = some '0' → ds.length ≤ 1)) ∧
        numeralValue N.radix ds ≤ N.max := by
  simp only [NumberSyntax.refuses, Bool.or_eq_false_iff, decide_eq_false_iff_not,
    Option.any_eq_false, Bool.and_eq_false_iff, Nat.not_lt, Bool.not_eq_false', and_assoc,
    Decidable.imp_iff_not_or, or_assoc, Option.mem_def, ne_eq]

def number (N : NumberSyntax) : Scan Nat := fun s =>
  let ds := s.takeWhile (isDigitOf N.radix)
  if N.refuses ds then none
  else some (numeralValue N.radix ds, s.dropWhile (isDigitOf N.radix))

theorem takeWhile_append_ends {p : Char → Bool} {l rest : Text} (hl : ∀ c ∈ l, p c = true)
    (hr : Ends p rest) : (l ++ rest).takeWhile p = l ∧ (l ++ rest).dropWhile p = rest := by
  rw [List.takeWhile_append_of_pos hl, List.dropWhile_append_of_pos hl]
  cases rest with
  | nil => exact ⟨List.append_nil l, rfl⟩
  | cons c rest =>
      have hc : ¬ p c = true := by simp [hr c rfl]
      rw [List.takeWhile_cons_of_neg hc, List.dropWhile_cons_of_neg hc, List.append_nil]
      exact ⟨rfl, rfl⟩

variable {N : NumberSyntax} {s rest : Text} {n : Nat}

theorem number_digits {ds : Text} (hall : ∀ c ∈ ds, isDigitOf N.radix c = true)
    (hr : Ends (isDigitOf N.radix) rest) :
    number N (ds ++ rest) =
      if N.refuses ds then none else some (numeralValue N.radix ds, rest) := by
  obtain ⟨htake, hdrop⟩ := takeWhile_append_ends hall hr
  simp only [number, htake, hdrop]

/-- All that is read as a number. -/
theorem number_eq_some (h : number N s = some (n, rest)) :
    ∃ ds, s = ds ++ rest ∧ (∀ c ∈ ds, isDigitOf N.radix c = true) ∧
      Ends (isDigitOf N.radix) rest ∧ N.refuses ds = false ∧ numeralValue N.radix ds = n := by
  rw [number] at h
  split at h
  · cases h
  · rename_i href
    cases h
    refine ⟨s.takeWhile (isDigitOf N.radix), List.takeWhile_append_dropWhile.symm, ?_, ?_,
      Bool.not_eq_true _ ▸ href, rfl⟩
    · exact fun c hc => List.mem_takeWhile_imp hc
    · intro c hc
      have hdrop := List.head?_dropWhile_not (isDigitOf N.radix) s
      rw [hc] at hdrop
      exact hdrop

/-- There is no number without a digit. -/
theorem number_none (h : Ends (isDigitOf N.radix) s) : number N s = none := by
  have hnil := @number_digits N s [] (fun c hc => by cases hc) h
  exact hnil.trans (if_pos rfl)

/-- **A numeral is read back.** -/
theorem number_numeral (h1 : 1 < N.radix) (h16 : N.radix ≤ 16) (hmax : n ≤ N.max)
    (hlen : ∀ m ∈ N.maxDigits, (numeral N.radix n).length ≤ m)
    (hr : Ends (isDigitOf N.radix) rest) :
    number N (numeral N.radix n ++ rest) = some (n, rest) := by
  have hvalue := numeralValue_numeral h1 h16 n
  have href : N.refuses (numeral N.radix n) = false := by
    refine refuses_eq_false_iff.mpr ⟨numeral_ne_nil _ _, hlen, .inr fun h => ?_,
      (Nat.le_of_eq hvalue).trans hmax⟩
    rw [head_numeral h1 h, numeral, Nat.toDigits_zero]
    exact Nat.le_refl 1
  rw [number_digits (isDigitOf_numeral h1 h16 n) hr, href, hvalue]
  rfl

end Library
