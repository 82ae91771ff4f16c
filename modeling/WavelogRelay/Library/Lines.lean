import WavelogRelay.Library.Text
import Mathlib.Data.List.TakeWhile

/-!
# Library — lines of a text

`lines` cuts a text at its newlines: a newline, or a carriage return and a newline, ends a line,
and the last line needs neither.

* `lines_cons_line`, `lines_last`: the lines of a text, from the front.
* `lines_flatMap_append`: the lines of newline-terminated lines and a last one are those lines.
-/

namespace Library

/-- The pieces of a text, each up to and with its newline. -/
def splitInclusive : Text → List Text
  | [] => []
  | c :: s =>
      if c = '\n' then ['\n'] :: splitInclusive s
      else
        match splitInclusive s with
        | [] => [[c]]
        | l :: ls => (c :: l) :: ls

/-- A piece without its line ending. -/
def stripEnding (l : Text) : Text :=
  if l.getLast? = some '\n' then
    if l.dropLast.getLast? = some '\r' then l.dropLast.dropLast else l.dropLast
  else l

/-- The lines of a text, without their endings. -/
def lines (s : Text) : List Text := (splitInclusive s).map stripEnding

/-- The characters of Unicode's `White_Space`. -/
def isWhitespace (c : Char) : Bool :=
  let n := c.val
  (0x09 ≤ n && n ≤ 0x0d) || n == 0x20 || n == 0x85 || n == 0xa0 || n == 0x1680 ||
    (0x2000 ≤ n && n ≤ 0x200a) || n == 0x2028 || n == 0x2029 || n == 0x202f || n == 0x205f ||
    n == 0x3000

/-- Whether nothing is left of a text once it is trimmed. -/
def isBlank (s : Text) : Bool := s.all isWhitespace

/-- A text without the characters at its end that satisfy `p`. -/
def trimEndMatches (p : Char → Bool) (s : Text) : Text := (s.reverse.dropWhile p).reverse

def trim (s : Text) : Text := trimEndMatches isWhitespace (s.dropWhile isWhitespace)

/-- The first of the pieces between white space; empty when there is none. -/
def firstWord (s : Text) : Text :=
  (s.dropWhile isWhitespace).takeWhile fun c => !isWhitespace c

/-- What follows `pre` in a text that starts with it. -/
def stripPrefix? : Text → Text → Option Text
  | [], s => some s
  | _ :: _, [] => none
  | c :: pre, d :: s => if c = d then stripPrefix? pre s else none

/-- A text before and after the last `c` in it. -/
def rsplitOnce (c : Char) (s : Text) : Option (Text × Text) :=
  match s.reverse.dropWhile (· ≠ c) with
  | [] => none
  | _ :: pre => some (pre.reverse, (s.reverse.takeWhile (· ≠ c)).reverse)

theorem rsplitOnce_eq_some_iff {c : Char} {s pre post : Text} :
    rsplitOnce c s = some (pre, post) ↔ s = pre ++ c :: post ∧ c ∉ post := by
  have hsplit := List.takeWhile_append_dropWhile (p := (· ≠ c)) (l := s.reverse)
  rw [rsplitOnce]
  constructor
  · intro h
    split at h
    · cases h
    · rename_i d r hdrop
      cases h
      have hhead := List.head?_dropWhile_not (· ≠ c) s.reverse
      rw [hdrop] at hhead hsplit
      have hd : d = c := by simpa using hhead
      refine ⟨?_, fun hmem => ?_⟩
      · have hrev := congrArg List.reverse hsplit
        rw [List.reverse_reverse, List.reverse_append] at hrev
        rw [hd, List.reverse_cons, List.append_assoc] at hrev
        exact hrev.symm
      · have htake := List.mem_takeWhile_imp (List.mem_reverse.mp hmem)
        simp at htake
  · rintro ⟨rfl, hpost⟩
    have hall : ∀ d ∈ post.reverse, (fun d => decide (d ≠ c)) d = true := fun d hd =>
      decide_eq_true fun h => hpost (h ▸ List.mem_reverse.mp hd)
    have hrev : (pre ++ c :: post).reverse = post.reverse ++ c :: pre.reverse := by simp
    rw [hrev, List.dropWhile_append_of_pos hall, List.takeWhile_append_of_pos hall]
    simp

/-! ### Prefixes -/

theorem trimEndMatches_isPrefix (p : Char → Bool) (s : Text) : trimEndMatches p s <+: s := by
  have h : s.reverse.dropWhile p <:+ s.reverse := List.dropWhile_suffix p
  simpa [trimEndMatches] using List.reverse_prefix.mpr h

/-- What ends with a character that is kept is kept. -/
theorem trimEndMatches_append {p : Char → Bool} {c : Char} (hc : p c = false) (pre s : Text) :
    trimEndMatches p (pre ++ c :: s) = pre ++ c :: trimEndMatches p s := by
  have hdrop : (c :: pre.reverse).dropWhile p = c :: pre.reverse := by simp [hc]
  simp only [trimEndMatches, List.reverse_append, List.reverse_cons, List.append_assoc,
    List.singleton_append, List.dropWhile_append, hdrop]
  split <;> simp_all

theorem trimEndMatches_of_kept {p : Char → Bool} {s t : Text} (hs : ∀ c ∈ s, p c = false)
    (ht : ∀ c ∈ t, p c = true) : trimEndMatches p (s ++ t) = s := by
  have hpost : t.reverse.dropWhile p = [] :=
    List.dropWhile_eq_nil_iff.mpr fun c hc => ht c (List.mem_reverse.mp hc)
  have hkept : s.reverse.dropWhile p = s.reverse := by
    cases hrev : s.reverse with
    | nil => rfl
    | cons c r =>
        have hc : c ∈ s := List.mem_reverse.mp (hrev ▸ List.mem_cons_self)
        simp [hs c hc]
  simp [trimEndMatches, List.dropWhile_append, hpost, hkept]

/-- What is left of a text between white space. -/
structure Trimmed (s t : Text) : Prop where
  between : ∃ pre post, s = pre ++ t ++ post ∧ isBlank pre ∧ isBlank post
  head : ∀ c ∈ t.head?, isWhitespace c = false
  last : ∀ c ∈ t.getLast?, isWhitespace c = false

theorem trimEndMatches_eq_append {p : Char → Bool} {s : Text} :
    ∃ post, s = trimEndMatches p s ++ post ∧ post.all p ∧
      ∀ c ∈ (trimEndMatches p s).getLast?, p c = false := by
  refine ⟨(s.reverse.takeWhile p).reverse, ?_, ?_, ?_⟩
  · rw [trimEndMatches, ← List.reverse_append, List.takeWhile_append_dropWhile,
      List.reverse_reverse]
  · rw [List.all_reverse]
    exact List.all_takeWhile
  · intro c hc
    rw [trimEndMatches, List.getLast?_reverse] at hc
    have hdrop := List.head?_dropWhile_not p s.reverse
    rw [hc] at hdrop
    simpa using hdrop

theorem trimmed_trim (s : Text) : Trimmed s (trim s) := by
  obtain ⟨post, hpost, hall, hlast⟩ :=
    trimEndMatches_eq_append (p := isWhitespace) (s := s.dropWhile isWhitespace)
  refine ⟨⟨s.takeWhile isWhitespace, post, ?_, List.all_takeWhile, hall⟩, fun c hc => ?_, hlast⟩
  · calc s = s.takeWhile isWhitespace ++ s.dropWhile isWhitespace :=
          List.takeWhile_append_dropWhile.symm
      _ = s.takeWhile isWhitespace ++ trim s ++ post := by rw [List.append_assoc, trim, ← hpost]
  · have hdrop := List.head?_dropWhile_not isWhitespace s
    rw [hpost, List.head?_append_of_ne_nil _ fun h => by rw [trim, h] at hc; cases hc] at hdrop
    rw [trim] at hc
    rw [hc] at hdrop
    simpa using hdrop

/-- **A trimmed text is what is left between white space**, and nothing else is. -/
theorem trimmed_iff {s t : Text} : Trimmed s t ↔ trim s = t := by
  constructor
  · rintro ⟨⟨pre, post, rfl, hpre, hpost⟩, hhead, hlast⟩
    have hdrop :
        (pre ++ t ++ post).dropWhile isWhitespace = (t ++ post).dropWhile isWhitespace := by
      rw [List.append_assoc]
      exact List.dropWhile_append_of_pos (List.all_eq_true.mp hpre)
    have hpostDrop : ∀ l, (post.reverse ++ l).dropWhile isWhitespace = l.dropWhile isWhitespace :=
      fun l => List.dropWhile_append_of_pos fun c hc =>
        List.all_eq_true.mp hpost c (List.mem_reverse.mp hc)
    rw [trim, hdrop]
    cases t with
    | nil =>
        have hnil : post.dropWhile isWhitespace = [] :=
          List.dropWhile_eq_nil_iff.mpr (List.all_eq_true.mp hpost)
        rw [List.nil_append, hnil]
        rfl
    | cons c t =>
        have hc : isWhitespace c = false := hhead c rfl
        have hrev : ((c :: t).reverse).dropWhile isWhitespace = (c :: t).reverse := by
          cases hr : (c :: t).reverse with
          | nil => rfl
          | cons d r =>
              have hd : isWhitespace d = false := by
                refine hlast d ?_
                rw [← List.head?_reverse, hr]
                rfl
              exact List.dropWhile_cons_of_neg (by simp [hd])
        rw [List.cons_append, List.dropWhile_cons_of_neg (by simp [hc]), ← List.cons_append,
          trimEndMatches, List.reverse_append, hpostDrop, hrev, List.reverse_reverse]
  · rintro rfl
    exact trimmed_trim s

theorem stripPrefix?_eq_some : ∀ {pre s t : Text}, stripPrefix? pre s = some t → pre ++ t = s
  | [], _, _, h => Option.some.inj h ▸ rfl
  | _ :: _, [], _, h => by cases h
  | c :: pre, d :: s, t, h => by
      simp only [stripPrefix?] at h
      split at h
      · rename_i hcd
        rw [List.cons_append, stripPrefix?_eq_some h, hcd]
      · cases h

/-- A text that starts with a character that is no white space has a first word. -/
theorem firstWord_cons_ne_nil {c : Char} (hc : isWhitespace c = false) (s : Text) :
    firstWord (c :: s) ≠ [] := by
  simp [firstWord, hc]

theorem firstWord_word {s : Text} (h : ∀ c ∈ s, isWhitespace c = false) : firstWord s = s := by
  have hdrop : s.dropWhile isWhitespace = s := by
    cases s with
    | nil => rfl
    | cons c s => simp [h c List.mem_cons_self]
  rw [firstWord, hdrop, List.takeWhile_eq_self_iff]
  exact fun c hc => by simp [h c hc]

/-! ### The lines of a text -/

theorem splitInclusive_line : ∀ {l : Text} (s : Text), '\n' ∉ l →
    splitInclusive (l ++ '\n' :: s) = (l ++ ['\n']) :: splitInclusive s
  | [], s, _ => by simp [splitInclusive]
  | c :: l, s, h => by
      simp only [List.mem_cons, not_or] at h
      rw [List.cons_append, splitInclusive, if_neg (Ne.symm h.1), splitInclusive_line s h.2]
      rfl

theorem splitInclusive_last : ∀ {l : Text}, '\n' ∉ l → l ≠ [] → splitInclusive l = [l]
  | [], _, h => absurd rfl h
  | c :: l, h, _ => by
      simp only [List.mem_cons, not_or] at h
      rw [splitInclusive, if_neg (Ne.symm h.1)]
      cases l with
      | nil => rfl
      | cons d l => rw [splitInclusive_last h.2 (List.cons_ne_nil d l)]

/-- Text that is all of one line: no newline in it, and no carriage return at its end. -/
def IsLine (l : Text) : Prop := '\n' ∉ l ∧ l.getLast? ≠ some '\r'

theorem lines_cons_line {l : Text} (s : Text) (h : IsLine l) :
    lines (l ++ '\n' :: s) = l :: lines s := by
  rw [lines, splitInclusive_line s h.1, List.map_cons]
  simp [stripEnding, h.2, lines]

theorem lines_last {l : Text} (h : '\n' ∉ l) (hne : l ≠ []) : lines l = [l] := by
  have hlast : l.getLast? ≠ some '\n' := fun e => h (List.mem_of_getLast? e)
  simp [lines, splitInclusive_last h hne, stripEnding, hlast]

/-- Newline-terminated lines, and a last one that may be empty. -/
theorem lines_flatMap_append : ∀ {ls : List Text} {last : Text}, (∀ l ∈ ls, IsLine l) →
    '\n' ∉ last →
    lines (ls.flatMap (· ++ ['\n']) ++ last) = ls ++ if last = [] then [] else [last]
  | [], last, _, hlast => by
      by_cases h : last = []
      · subst h; rfl
      · simp [h, lines_last hlast h]
  | l :: ls, last, h, hlast => by
      have ih := lines_flatMap_append (fun m hm => h m (List.mem_cons_of_mem l hm)) hlast
      have hl := lines_cons_line (ls.flatMap (· ++ ['\n']) ++ last) (h l (by simp))
      simpa [ih] using hl

end Library
