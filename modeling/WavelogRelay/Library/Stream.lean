import Mathlib.Data.List.DropRight
import WavelogRelay.Library.Text

/-!
# Library — a stream of bytes, and where it is cut

A stream that ends is the bytes that are still to be read.  `nextLine` is what a buffered reader
takes off it: up to and with the first newline, or all that is left.

* `nextLine_append`: a line that is whole is the same however the stream goes on.
* `nextLine_unterminated`: what is taken off a stream without a newline.
* `unfinished`: the bytes after the last newline.
-/

namespace Library

def newline : UInt8 := 0x0a

/-- The next line, and what is left. -/
def nextLine : Bytes → Bytes × Bytes
  | [] => ([], [])
  | x :: b => if x = newline then ([x], b) else (x :: (nextLine b).1, (nextLine b).2)

/-- The bytes after the last newline. -/
def unfinished (b : Bytes) : Bytes := b.rtakeWhile (· ≠ newline)

theorem nextLine_line {l : Bytes} (h : newline ∉ l) (b : Bytes) :
    nextLine (l ++ newline :: b) = (l ++ [newline], b) := by
  induction l with
  | nil => simp [nextLine]
  | cons x l ih =>
      simp only [List.mem_cons, not_or] at h
      rw [List.cons_append, nextLine, if_neg (Ne.symm h.1), ih h.2]
      rfl

/-- **The end of the stream ends a line.** -/
theorem nextLine_unterminated {b : Bytes} (h : newline ∉ b) : nextLine b = (b, []) := by
  induction b with
  | nil => rfl
  | cons x b ih =>
      simp only [List.mem_cons, not_or] at h
      rw [nextLine, if_neg (Ne.symm h.1), ih h.2]

/-- A stream with a newline is a line and what follows it. -/
theorem exists_line {b : Bytes} (h : newline ∈ b) :
    ∃ l r, newline ∉ l ∧ b = l ++ newline :: r := by
  induction b with
  | nil => cases h
  | cons x b ih =>
      by_cases hx : newline = x
      · exact ⟨[], b, by simp, by rw [hx, List.nil_append]⟩
      · obtain ⟨l, r, hl, rfl⟩ := ih ((List.mem_cons.mp h).resolve_left hx)
        exact ⟨x :: l, r, by simp [hx, hl], rfl⟩

/-- **A line that is whole is the same however the stream goes on.** -/
theorem nextLine_append {b : Bytes} (h : newline ∈ b) (d : Bytes) :
    nextLine (b ++ d) = ((nextLine b).1, (nextLine b).2 ++ d) := by
  obtain ⟨l, r, hl, rfl⟩ := exists_line h
  rw [List.append_assoc, List.cons_append, nextLine_line hl, nextLine_line hl]

/-- A line that is not whole goes on. -/
theorem nextLine_append_unterminated {b : Bytes} (h : newline ∉ b) (d : Bytes) :
    nextLine (b ++ d) = (b ++ (nextLine d).1, (nextLine d).2) := by
  induction b with
  | nil => rfl
  | cons x b ih =>
      simp only [List.mem_cons, not_or] at h
      rw [List.cons_append, nextLine, if_neg (Ne.symm h.1), ih h.2]
      rfl

/-! ### The unfinished line -/

theorem unfinished_unterminated {b : Bytes} (h : newline ∉ b) : unfinished b = b :=
  List.rtakeWhile_eq_self_iff.mpr fun x hx => by
    simpa using fun e : x = newline => h (e ▸ hx)

theorem unfinished_nextLine {b : Bytes} (h : newline ∈ b) :
    unfinished (nextLine b).2 = unfinished b := by
  obtain ⟨l, r, hl, rfl⟩ := exists_line h
  simp only [nextLine_line hl, unfinished, List.rtakeWhile, List.reverse_append, List.reverse_cons,
    List.append_assoc, List.takeWhile_append]
  split
  · rename_i hall
    -- there is no newline after this one
    have hr := (List.takeWhile_prefix (· ≠ newline)).eq_of_length hall
    rw [hr]
    simp
  · rfl

theorem count_nextLine {b : Bytes} (h : newline ∈ b) :
    b.count newline = (nextLine b).2.count newline + 1 := by
  obtain ⟨l, r, hl, rfl⟩ := exists_line h
  simp [nextLine_line hl, List.count_append, List.count_eq_zero.mpr hl]

end Library
