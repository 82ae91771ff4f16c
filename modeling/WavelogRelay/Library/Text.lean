import Mathlib.Data.List.Basic
import Mathlib.Tactic.Common

/-!
# Library — UTF-8 text and byte offsets

A text is the list of its characters; a byte string is a list of bytes.  `utf8` encodes a text,
`fromUtf8` decodes a byte string and fails on the bytes that are no encoding
(`fromUtf8_eq_some_iff`).

Positions in a text are byte offsets.  An offset is a *boundary* when it lies between two
characters, or at an end (`IsBoundary`).  `slice` cuts a text at two byte offsets and has no
value when one of them is no boundary, lies past the end, or the first is past the second
(`slice_isSome_iff`).

The code is prefix-free: a text whose encoding begins another's is a prefix of it
(`isPrefix_of_utf8`).
-/

namespace Library

/-- A text, as its characters. -/
abbrev Text := List Char

/-- A byte string. -/
abbrev Bytes := List UInt8

/-! ### Encoding and decoding -/

/-- The length of a text in bytes. -/
def byteLen : Text → Nat
  | [] => 0
  | c :: s => c.utf8Size + byteLen s

@[simp] theorem byteLen_nil : byteLen [] = 0 := rfl

@[simp] theorem byteLen_cons (c : Char) (s : Text) :
    byteLen (c :: s) = c.utf8Size + byteLen s := rfl

@[simp] theorem byteLen_append (s t : Text) : byteLen (s ++ t) = byteLen s + byteLen t := by
  induction s with
  | nil => simp
  | cons c s ih => simp [ih, Nat.add_assoc]

/-- The UTF-8 encoding of a text. -/
def utf8 (s : Text) : Bytes := s.flatMap String.utf8EncodeChar

@[simp] theorem utf8_nil : utf8 [] = [] := rfl

@[simp] theorem utf8_cons (c : Char) (s : Text) :
    utf8 (c :: s) = String.utf8EncodeChar c ++ utf8 s := rfl

@[simp] theorem utf8_append (s t : Text) : utf8 (s ++ t) = utf8 s ++ utf8 t := by
  simp [utf8]

@[simp] theorem length_utf8 (s : Text) : (utf8 s).length = byteLen s := by
  induction s with
  | nil => rfl
  | cons c s ih => simp [ih]

/-- The first character of a byte string, when its first bytes encode one. -/
def decodeHead (b : Bytes) : Option Char := b.toByteArray.utf8DecodeChar? 0

theorem decodeHead_append (c : Char) (b : Bytes) :
    decodeHead (String.utf8EncodeChar c ++ b) = some c := by
  rw [decodeHead, List.toByteArray_append]
  exact ByteArray.utf8DecodeChar?_utf8EncodeChar_append

theorem decodeHead_eq_some {b : Bytes} {c : Char} (h : decodeHead b = some c) :
    b = String.utf8EncodeChar c ++ b.drop c.utf8Size := by
  obtain ⟨r, hr⟩ : ∃ r : Bytes, b = String.utf8EncodeChar c ++ r := by
    have e := ByteArray.eq_of_utf8DecodeChar?_eq_some h
    refine ⟨(b.toByteArray.extract c.utf8Size b.toByteArray.size).data.toList, ?_⟩
    have e' := congrArg (fun x : ByteArray => x.data.toList) e
    simpa using e'
  subst hr
  rw [List.drop_left' (String.length_utf8EncodeChar c)]

/-- Decode at most `n` characters, all the bytes. -/
def decodeUpTo : Nat → Bytes → Option Text
  | _, [] => some []
  | 0, _ :: _ => none
  | n + 1, b :: bs =>
      match decodeHead (b :: bs) with
      | none => none
      | some c => (decodeUpTo n ((b :: bs).drop c.utf8Size)).map (c :: ·)

/-- The text a byte string encodes, if it is valid UTF-8. -/
def fromUtf8 (b : Bytes) : Option Text := decodeUpTo b.length b

theorem utf8EncodeChar_ne_nil (c : Char) : String.utf8EncodeChar c ≠ [] := fun h => by
  have := c.utf8Size_pos
  rw [← String.length_utf8EncodeChar c, h] at this
  exact absurd this (by simp)

theorem decodeUpTo_utf8 : ∀ (s : Text) (n : Nat), byteLen s ≤ n → decodeUpTo n (utf8 s) = some s
  | [], n, _ => by cases n <;> rfl
  | c :: s, 0, h => by
      have := c.utf8Size_pos
      simp only [byteLen_cons] at h
      omega
  | c :: s, n + 1, h => by
      have hc := c.utf8Size_pos
      simp only [byteLen_cons] at h
      obtain ⟨b, bs, e⟩ := List.exists_cons_of_ne_nil
        (List.append_ne_nil_of_left_ne_nil (utf8EncodeChar_ne_nil c) (utf8 s))
      have hd : decodeHead (b :: bs) = some c := e ▸ decodeHead_append c (utf8 s)
      have hr : (b :: bs).drop c.utf8Size = utf8 s := by
        rw [← e, List.drop_left' (String.length_utf8EncodeChar c)]
      rw [utf8_cons, e, decodeUpTo, hd]
      simp only [hr, decodeUpTo_utf8 s n (by omega), Option.map_some]

theorem utf8_of_decodeUpTo : ∀ (n : Nat) (b : Bytes) (s : Text),
    decodeUpTo n b = some s → b = utf8 s
  | n, [], s, h => by
      have : s = [] := by cases n <;> simpa [decodeUpTo] using h.symm
      simp [this]
  | 0, _ :: _, _, h => by simp [decodeUpTo] at h
  | n + 1, b :: bs, s, h => by
      rw [decodeUpTo] at h
      cases hd : decodeHead (b :: bs) with
      | none => simp [hd] at h
      | some c =>
          simp only [hd, Option.map_eq_some_iff] at h
          obtain ⟨t, ht, rfl⟩ := h
          rw [utf8_cons, ← utf8_of_decodeUpTo n _ t ht]
          exact decodeHead_eq_some hd

/-- **Decoding inverts encoding, and nothing else decodes.** -/
theorem fromUtf8_eq_some_iff {b : Bytes} {s : Text} : fromUtf8 b = some s ↔ b = utf8 s := by
  refine ⟨utf8_of_decodeUpTo _ _ _, ?_⟩
  rintro rfl
  exact decodeUpTo_utf8 s _ (by simp)

@[simp] theorem fromUtf8_utf8 (s : Text) : fromUtf8 (utf8 s) = some s :=
  fromUtf8_eq_some_iff.mpr rfl

theorem utf8_injective : Function.Injective utf8 := fun s t h => by
  have := fromUtf8_utf8 t
  rw [← h, fromUtf8_utf8] at this
  exact Option.some.inj this

/-- The code is prefix-free. -/
theorem isPrefix_of_utf8 : ∀ {s t : Text}, utf8 s <+: utf8 t → s <+: t
  | [], _, _ => List.nil_prefix
  | c :: s, t, ⟨r, hr⟩ => by
      have hc : decodeHead (utf8 t) = some c := by
        rw [← hr, utf8_cons, List.append_assoc, decodeHead_append]
      cases t with
      | nil => exact absurd (List.append_eq_nil_iff.mp hr).1 (by simp)
      | cons d t =>
          rw [utf8_cons, decodeHead_append] at hc
          cases Option.some.inj hc
          rw [utf8_cons, utf8_cons, List.append_assoc] at hr
          exact (List.prefix_cons_inj c).mpr
            (isPrefix_of_utf8 ⟨r, List.append_cancel_left hr⟩)

/-- The bytes of a character after its first are no ASCII bytes. -/
theorem utf8EncodeChar_tail (c : Char) : ∀ x ∈ (String.utf8EncodeChar c).tail, 128 ≤ x.toNat := by
  intro x hx
  have cont : ∀ n, 128 ≤ (UInt8.ofNat (n % 64 + 128)).toNat := fun n => by
    rw [UInt8.toNat_ofNat']
    omega
  unfold String.utf8EncodeChar at hx
  simp only [] at hx
  split at hx
  · simp at hx
  split at hx
  · simp only [List.tail_cons, List.mem_singleton] at hx
    subst hx; exact cont _
  split at hx
  · simp only [List.tail_cons, List.mem_cons, List.not_mem_nil, or_false] at hx
    rcases hx with rfl | rfl <;> exact cont _
  · simp only [List.tail_cons, List.mem_cons, List.not_mem_nil, or_false] at hx
    rcases hx with rfl | rfl | rfl <;> exact cont _

/-- An ASCII byte of an encoding begins a character: the encoding splits before it. -/
theorem utf8_split : ∀ {s : Text} {a b : Bytes}, utf8 s = a ++ b →
    (∀ x, b.head? = some x → x.toNat < 128) → ∃ t u, s = t ++ u ∧ utf8 t = a ∧ utf8 u = b
  | [], a, b, h, _ => by
      obtain ⟨rfl, rfl⟩ := List.append_eq_nil_iff.mp h.symm
      exact ⟨[], [], rfl, rfl, rfl⟩
  | c :: s, a, b, h, hb => by
      rw [utf8_cons] at h
      rcases List.append_eq_append_iff.mp h with ⟨a', rfl, h'⟩ | ⟨x, hx, rfl⟩
      · obtain ⟨t, u, rfl, rfl, rfl⟩ := utf8_split h' hb
        exact ⟨c :: t, u, rfl, rfl, rfl⟩
      · cases x with
        | nil => exact ⟨[c], s, rfl, by simpa using hx, rfl⟩
        | cons y x =>
            cases a with
            | nil => exact ⟨[], c :: s, rfl, rfl, by simp [hx]⟩
            | cons _ a =>
                have hy : 128 ≤ y.toNat := utf8EncodeChar_tail c y (by simp [hx])
                have := hb y (by simp)
                omega

/-- An ASCII byte of an encoding encodes a character. -/
theorem mem_of_mem_utf8 {c : Char} {x : UInt8} (hc : utf8 [c] = [x]) (hx : x.toNat < 128) {s : Text}
    (h : x ∈ utf8 s) : c ∈ s := by
  obtain ⟨a, b, hab⟩ := List.append_of_mem h
  obtain ⟨t, u, rfl, -, hu⟩ := utf8_split hab fun y hy => by
    cases Option.some.inj hy
    exact hx
  have hpre : utf8 [c] <+: utf8 u := by
    rw [hc, hu]
    exact ⟨b, rfl⟩
  obtain ⟨r, rfl⟩ := isPrefix_of_utf8 hpre
  simp

/-! ### Byte offsets -/

/-- `n` is the byte offset of a place between two characters of `s`, or of one of its ends. -/
def IsBoundary (s : Text) (n : Nat) : Prop := ∃ pre post, s = pre ++ post ∧ byteLen pre = n

/-- A text is cut at a byte offset in at most one way. -/
theorem append_inj_of_byteLen {pre pre' post post' : Text} (h : pre ++ post = pre' ++ post')
    (hlen : byteLen pre = byteLen pre') : pre = pre' ∧ post = post' := by
  have hlen' : (utf8 pre).length = (utf8 pre').length := by simp [hlen]
  have hu := congrArg utf8 h
  rw [utf8_append, utf8_append] at hu
  obtain ⟨h₁, h₂⟩ := List.append_inj hu hlen'
  exact ⟨utf8_injective h₁, utf8_injective h₂⟩

theorem isBoundary_append_iff {pre s : Text} {n : Nat} :
    IsBoundary (pre ++ s) (byteLen pre + n) ↔ IsBoundary s n := by
  constructor
  · rintro ⟨a, b, e, hlen⟩
    rcases List.append_eq_append_iff.mp e with ⟨r, rfl, rfl⟩ | ⟨r, rfl, rfl⟩
    · exact ⟨r, b, rfl, by simpa using hlen⟩
    · have hr : byteLen r + n = 0 := by simp only [byteLen_append] at hlen; omega
      exact ⟨[], s, rfl, by simp; omega⟩
  · rintro ⟨a, b, rfl, rfl⟩
    exact ⟨pre ++ a, b, by simp, by simp⟩

/-- **Where an encoding may be cut**: its first `n` bytes are text exactly when they end at a
boundary. -/
theorem fromUtf8_take_isSome_iff {s : Text} {n : Nat} :
    (fromUtf8 ((utf8 s).take n)).isSome ↔ IsBoundary s (min n (byteLen s)) := by
  rw [Option.isSome_iff_exists]
  constructor
  · rintro ⟨t, ht⟩
    have ht := fromUtf8_eq_some_iff.mp ht
    obtain ⟨r, rfl⟩ := isPrefix_of_utf8 (ht ▸ List.take_prefix n (utf8 s))
    have hlen := congrArg List.length ht
    rw [List.length_take, length_utf8, length_utf8] at hlen
    exact ⟨t, r, rfl, hlen.symm⟩
  · rintro ⟨pre, post, rfl, hlen⟩
    refine ⟨pre, fromUtf8_eq_some_iff.mpr ?_⟩
    rw [List.take_eq_take_min, length_utf8, ← hlen, utf8_append, ← length_utf8, List.take_left]

/-- `s` without its first `n` bytes; no value unless `n` is a boundary. -/
def dropBytes : Nat → Text → Option Text
  | 0, s => some s
  | _ + 1, [] => none
  | n + 1, c :: s => if c.utf8Size ≤ n + 1 then dropBytes (n + 1 - c.utf8Size) s else none

/-- The first `n` bytes of `s`; no value unless `n` is a boundary. -/
def takeBytes : Nat → Text → Option Text
  | 0, _ => some []
  | _ + 1, [] => none
  | n + 1, c :: s =>
      if c.utf8Size ≤ n + 1 then (takeBytes (n + 1 - c.utf8Size) s).map (c :: ·) else none

/-- `s[a..b]`, at byte offsets; no value where cutting `s` there would panic. -/
def slice (s : Text) (a b : Nat) : Option Text :=
  if a ≤ b then (dropBytes a s).bind (takeBytes (b - a)) else none

theorem dropBytes_append : ∀ (pre post : Text), dropBytes (byteLen pre) (pre ++ post) = some post
  | [], post => by cases post <;> rfl
  | c :: pre, post => by
      have hc := c.utf8Size_pos
      obtain ⟨n, hn⟩ : ∃ n, c.utf8Size + byteLen pre = n + 1 :=
        Nat.exists_eq_succ_of_ne_zero (by omega)
      rw [List.cons_append, byteLen_cons, hn, dropBytes, if_pos (by omega)]
      have : n + 1 - c.utf8Size = byteLen pre := by omega
      rw [this, dropBytes_append pre post]

theorem dropBytes_eq_some : ∀ {n : Nat} {s t : Text}, dropBytes n s = some t →
    ∃ pre, s = pre ++ t ∧ byteLen pre = n
  | 0, s, t, h => by
      have : s = t := by cases s <;> simpa [dropBytes] using h
      exact ⟨[], this, rfl⟩
  | n + 1, [], _, h => by simp [dropBytes] at h
  | n + 1, c :: s, t, h => by
      simp only [dropBytes] at h
      split at h
      · obtain ⟨pre, rfl, hp⟩ := dropBytes_eq_some h
        exact ⟨c :: pre, rfl, by rw [byteLen_cons]; omega⟩
      · cases h

theorem takeBytes_append : ∀ (pre post : Text), takeBytes (byteLen pre) (pre ++ post) = some pre
  | [], post => by cases post <;> rfl
  | c :: pre, post => by
      have hc := c.utf8Size_pos
      obtain ⟨n, hn⟩ : ∃ n, c.utf8Size + byteLen pre = n + 1 :=
        Nat.exists_eq_succ_of_ne_zero (by omega)
      rw [List.cons_append, byteLen_cons, hn, takeBytes, if_pos (by omega)]
      have : n + 1 - c.utf8Size = byteLen pre := by omega
      rw [this, takeBytes_append pre post, Option.map_some]

theorem takeBytes_eq_some : ∀ {n : Nat} {s t : Text}, takeBytes n s = some t →
    t <+: s ∧ byteLen t = n
  | 0, s, t, h => by
      have : t = [] := by cases s <;> simpa [takeBytes] using h.symm
      exact this ▸ ⟨List.nil_prefix, rfl⟩
  | n + 1, [], _, h => by simp [takeBytes] at h
  | n + 1, c :: s, t, h => by
      simp only [takeBytes] at h
      split at h
      · simp only [Option.map_eq_some_iff] at h
        obtain ⟨u, hu, rfl⟩ := h
        obtain ⟨hp, hl⟩ := takeBytes_eq_some hu
        exact ⟨(List.prefix_cons_inj c).mpr hp, by rw [byteLen_cons]; omega⟩
      · cases h

theorem takeBytes_isSome_iff {s : Text} {n : Nat} : (takeBytes n s).isSome ↔ IsBoundary s n := by
  rw [Option.isSome_iff_exists]
  constructor
  · rintro ⟨t, h⟩
    obtain ⟨⟨post, rfl⟩, rfl⟩ := takeBytes_eq_some h
    exact ⟨t, post, rfl, rfl⟩
  · rintro ⟨pre, post, rfl, rfl⟩
    exact ⟨pre, takeBytes_append pre post⟩

theorem slice_eq_some_iff {s t : Text} {a b : Nat} :
    slice s a b = some t ↔
      ∃ pre post, s = pre ++ t ++ post ∧ byteLen pre = a ∧ byteLen (pre ++ t) = b := by
  constructor
  · intro h
    unfold slice at h
    split at h
    · rename_i hab
      obtain ⟨u, hu, ht⟩ := Option.bind_eq_some_iff.mp h
      obtain ⟨pre, rfl, hpre⟩ := dropBytes_eq_some hu
      obtain ⟨⟨post, rfl⟩, hlen⟩ := takeBytes_eq_some ht
      exact ⟨pre, post, by simp, hpre, by rw [byteLen_append]; omega⟩
    · cases h
  · rintro ⟨pre, post, rfl, rfl, rfl⟩
    rw [slice, if_pos (by simp), List.append_assoc, dropBytes_append, Option.bind_some,
      byteLen_append, Nat.add_sub_cancel_left, takeBytes_append]

theorem slice_add (pre s : Text) (n : Nat) :
    slice (pre ++ s) (byteLen pre) (byteLen pre + n) = takeBytes n s := by
  rw [slice, if_pos (by omega), dropBytes_append, Option.bind_some, Nat.add_sub_cancel_left]

theorem slice_to_end (pre s : Text) :
    slice (pre ++ s) (byteLen pre) (byteLen (pre ++ s)) = some s :=
  slice_eq_some_iff.mpr ⟨pre, [], by simp, rfl, rfl⟩

/-- Where a slice has a value: both ends in order, in range and at boundaries. -/
theorem slice_isSome_iff {s : Text} {a b : Nat} :
    (slice s a b).isSome ↔ a ≤ b ∧ b ≤ byteLen s ∧ IsBoundary s a ∧ IsBoundary s b := by
  rw [Option.isSome_iff_exists]
  constructor
  · rintro ⟨t, h⟩
    obtain ⟨pre, post, rfl, rfl, rfl⟩ := slice_eq_some_iff.mp h
    refine ⟨by simp, by simp, ⟨pre, t ++ post, by simp, rfl⟩, ⟨pre ++ t, post, rfl, rfl⟩⟩
  · rintro ⟨hab, -, ⟨pre, post, rfl, rfl⟩, ⟨pre', post', e, rfl⟩⟩
    have hp : pre <+: pre' := by
      rcases List.prefix_or_prefix_of_prefix ⟨post, rfl⟩ ⟨post', e.symm⟩ with h | ⟨r, rfl⟩
      · exact h
      · have : r = [] := by
          rw [byteLen_append] at hab
          cases r with
          | nil => rfl
          | cons c r => have := c.utf8Size_pos; simp only [byteLen_cons] at hab; omega
        simp [this]
    obtain ⟨t, rfl⟩ := hp
    exact ⟨t, slice_eq_some_iff.mpr ⟨pre, post', e, rfl, rfl⟩⟩

/-- The byte offset of the first `c` in a text. -/
def findChar (c : Char) : Text → Option Nat
  | [] => none
  | d :: s => if d = c then some 0 else (findChar c s).map (· + d.utf8Size)

theorem findChar_eq_some : ∀ {c : Char} {s : Text} {n : Nat}, findChar c s = some n →
    ∃ pre post, s = pre ++ c :: post ∧ c ∉ pre ∧ byteLen pre = n
  | _, [], _, h => by simp [findChar] at h
  | c, d :: s, n, h => by
      simp only [findChar] at h
      split at h
      · rename_i e
        subst e
        exact ⟨[], s, rfl, by simp, by simpa using h⟩
      · rename_i hne
        simp only [Option.map_eq_some_iff] at h
        obtain ⟨m, hm, rfl⟩ := h
        obtain ⟨pre, post, rfl, hnot, rfl⟩ := findChar_eq_some hm
        exact ⟨d :: pre, post, rfl, by simp [hnot, Ne.symm hne], by simp; omega⟩

theorem findChar_append {c : Char} (post : Text) : ∀ {pre : Text}, c ∉ pre →
    findChar c (pre ++ c :: post) = some (byteLen pre)
  | [], _ => by simp [findChar]
  | d :: pre, h => by
      simp only [List.mem_cons, not_or] at h
      rw [List.cons_append, findChar, if_neg (Ne.symm h.1), findChar_append post h.2]
      simp [Nat.add_comm]

/-- The first `c` of a text splits it in one way. -/
theorem split_at_unique {c : Char} : ∀ {pre pre' t t' : Text}, c ∉ pre → c ∉ pre' →
    pre ++ c :: t = pre' ++ c :: t' → pre = pre' ∧ t = t'
  | [], [], _, _, _, _, h => ⟨rfl, (List.cons.inj h).2⟩
  | [], d :: _, _, _, _, h', h => absurd (List.cons.inj h).1 fun e => h' (by simp [e])
  | d :: _, [], _, _, h', _, h => absurd (List.cons.inj h).1 fun e => h' (by simp [e])
  | d :: _, d' :: _, _, _, hp, hp', h => by
      obtain ⟨rfl, ht⟩ := List.cons.inj h
      obtain ⟨rfl, rfl⟩ := split_at_unique (fun m => hp (List.mem_cons_of_mem _ m))
        (fun m => hp' (List.mem_cons_of_mem _ m)) ht
      exact ⟨rfl, rfl⟩

theorem findChar_eq_none_iff {c : Char} : ∀ {s : Text}, findChar c s = none ↔ c ∉ s
  | [] => by simp [findChar]
  | d :: s => by
      simp only [findChar]
      split
      · rename_i e; simp [e]
      · rename_i hne; simp [findChar_eq_none_iff (s := s), Ne.symm hne]

end Library
