import WavelogRelay.Library.Scan

/-!
# Library — internet addresses in text

`ipv4` and `ipv6` read an address off the front of a text, and `toText` writes one, as
`core::net` does.  An IPv6 address is its eight segments.

* `ipv4_iff`: an IPv4 address has one text, which is what is read.
* `ipv6_toText`: an IPv6 address that is written is read back, whichever of its zeros are left out
  and whether or not its end is written as an IPv4 address.
* `colons_ipv6`: what is read as one has two colons at least.
-/

namespace Library

/-! ### IPv4 -/

structure Ipv4Addr where
  a : UInt8
  b : UInt8
  c : UInt8
  d : UInt8
  deriving DecidableEq, Repr

/-- A leading zero would look octal. -/
def octetSyntax : NumberSyntax :=
  { radix := 10, maxDigits := some 3, allowZeroPrefix := false, max := 255 }

def octet : Scan UInt8 := fun s => (number octetSyntax s).map fun r => (.ofNat r.1, r.2)

/-- `read_ipv4_addr`. -/
def ipv4 : Scan Ipv4Addr := fun s => do
  let (a, s) ← octet s
  let (b, s) ← octet (← given '.' s)
  let (c, s) ← octet (← given '.' s)
  let (d, s) ← octet (← given '.' s)
  return (⟨a, b, c, d⟩, s)

def octetText (x : UInt8) : Text := numeral 10 x.toNat

def Ipv4Addr.toText (x : Ipv4Addr) : Text :=
  octetText x.a ++ '.' :: (octetText x.b ++ '.' :: (octetText x.c ++ '.' :: octetText x.d))

theorem octet_iff {s rest : Text} {x : UInt8} :
    octet s = some (x, rest) ↔ s = octetText x ++ rest ∧ Ends (isDigitOf 10) rest := by
  constructor
  · intro h
    obtain ⟨⟨n, r⟩, hn, heq⟩ := Option.map_eq_some_iff.mp h
    obtain ⟨rfl, rfl⟩ := Prod.mk.inj heq
    obtain ⟨ds, rfl, hall, hends, href, rfl⟩ := number_eq_some hn
    obtain ⟨hne, -, hzero, hmax⟩ := refuses_eq_false_iff.mp href
    have hcanon : numeral 10 (numeralValue 10 ds) = ds := by
      refine numeral_of_canonical hne hall fun hhead => ?_
      have hle := hzero.resolve_left (fun h => by cases h) hhead
      exact Nat.le_antisymm hle (List.length_pos_iff.mpr hne)
    refine ⟨?_, hends⟩
    have htoNat : (UInt8.ofNat (numeralValue 10 ds)).toNat = numeralValue 10 ds :=
      Nat.mod_eq_of_lt (Nat.lt_succ_of_le hmax)
    change ds ++ r = octetText (UInt8.ofNat (numeralValue 10 ds)) ++ r
    rw [octetText, htoNat, hcanon]
  · rintro ⟨rfl, hends⟩
    have hmax : x.toNat ≤ octetSyntax.max := Nat.le_of_lt_succ x.toNat_lt
    have hlen : ∀ m ∈ octetSyntax.maxDigits, (numeral octetSyntax.radix x.toNat).length ≤ m := by
      intro m hm
      cases hm
      exact (Nat.length_toDigits_le_iff (by decide) (by decide)).mpr
        (Nat.lt_of_lt_of_le x.toNat_lt (by decide))
    have hnum : number octetSyntax (numeral 10 x.toNat ++ rest) = some (x.toNat, rest) :=
      number_numeral (by decide) (by decide) hmax hlen hends
    rw [octet, octetText, hnum]
    simp

theorem ends_dot {rest : Text} : Ends (isDigitOf 10) ('.' :: rest) := fun c hc => by
  cases hc
  rfl

/-- **The one text of an IPv4 address.** -/
theorem ipv4_iff {s rest : Text} {x : Ipv4Addr} :
    ipv4 s = some (x, rest) ↔ s = x.toText ++ rest ∧ Ends (isDigitOf 10) rest := by
  simp only [ipv4, Option.bind_eq_bind, Option.bind_eq_some_iff, Prod.exists, octet_iff,
    given_eq_some_iff]
  constructor
  · rintro ⟨a, s₁, ⟨rfl, -⟩, s₂, rfl, b, s₃, ⟨rfl, -⟩, s₄, rfl, c, s₅, ⟨rfl, -⟩, s₆, rfl, d, s₇,
      ⟨rfl, hends⟩, h⟩
    cases h
    exact ⟨by simp [Ipv4Addr.toText], hends⟩
  · rintro ⟨rfl, hends⟩
    have hassoc : x.toText ++ rest = octetText x.a ++ '.' :: (octetText x.b ++
        '.' :: (octetText x.c ++ '.' :: (octetText x.d ++ rest))) := by simp [Ipv4Addr.toText]
    exact ⟨x.a, _, ⟨hassoc, ends_dot⟩, _, rfl, x.b, _, ⟨rfl, ends_dot⟩, _, rfl, x.c, _,
      ⟨rfl, ends_dot⟩, _, rfl, x.d, rest, ⟨rfl, hends⟩, rfl⟩

/-! ### IPv6 -/

def groupSyntax : NumberSyntax :=
  { radix := 16, maxDigits := some 4, allowZeroPrefix := true, max := 0xffff }

def group : Scan UInt16 := fun s => (number groupSyntax s).map fun r => (.ofNat r.1, r.2)

/-- `read_separator`: there is a colon before each but the first. -/
def separated {α : Type} (first : Bool) (x : Scan α) : Scan α := fun s =>
  if first then x s else (given ':' s).bind x

/-- `u16::from_be_bytes`. -/
def fromBeBytes (a b : UInt8) : UInt16 := .ofNat (a.toNat * 256 + b.toNat)

def Ipv4Addr.groups (x : Ipv4Addr) : List UInt16 := [fromBeBytes x.a x.b, fromBeBytes x.c x.d]

/-- `read_groups`: `n` groups at most, and whether the last two were an IPv4 address. -/
def readGroups : Nat → Bool → Text → (List UInt16 × Bool) × Text
  | 0, _, s => (([], false), s)
  | n + 1, first, s =>
      match if n = 0 then none else separated first ipv4 s with
      | some (x, s) => ((x.groups, true), s)
      | none =>
          match separated first group s with
          | none => (([], false), s)
          | some (g, s) =>
              let r := readGroups n false s
              ((g :: r.1.1, r.1.2), r.2)

/-- `read_ipv6_addr`. -/
def ipv6 : Scan (List UInt16) := fun s =>
  let head := readGroups 8 true s
  if head.1.1.length = 8 then some (head.1.1, head.2)
  -- an IPv4 address is the end
  else if head.1.2 then none
  else do
    let s ← given ':' head.2
    let s ← given ':' s
    let tail := readGroups (8 - (head.1.1.length + 1)) true s
    return (head.1.1 ++ List.replicate (8 - head.1.1.length - tail.1.1.length) 0 ++ tail.1.1,
      tail.2)

/-! ### The text of an IPv6 address -/

structure Span where
  start : Nat := 0
  len : Nat := 0
  deriving DecidableEq, Repr

/-- The first of the longest runs of zeros, after `i` segments: `current` is the run that ends
there, and `longest` the one so far. -/
def zeroes : List UInt16 → Nat → Span → Span → Span
  | [], _, _, longest => longest
  | x :: segments, i, current, longest =>
      if x = 0 then
        let current : Span :=
          { start := if current.len = 0 then i else current.start, len := current.len + 1 }
        zeroes segments (i + 1) current (if longest.len < current.len then current else longest)
      else zeroes segments (i + 1) {} longest

def groupText (g : UInt16) : Text := numeral 16 g.toNat

/-- The segments that follow another. -/
def moreText (segments : List UInt16) : Text := segments.flatMap fun g => ':' :: groupText g

/-- `fmt_subslice`. -/
def subsliceText : List UInt16 → Text
  | [] => []
  | g :: segments => groupText g ++ moreText segments

/-- `to_ipv4_mapped`. -/
def toIpv4Mapped : List UInt16 → Option Ipv4Addr
  | [0, 0, 0, 0, 0, 0xffff, ab, cd] =>
      some ⟨.ofNat (ab.toNat / 256), .ofNat ab.toNat, .ofNat (cd.toNat / 256), .ofNat cd.toNat⟩
  | _ => none

def ipv6Text (segments : List UInt16) : Text :=
  match toIpv4Mapped segments with
  | some x => "::ffff:".toList ++ x.toText
  | none =>
      let z := zeroes segments 0 {} {}
      if 1 < z.len then
        subsliceText (segments.take z.start) ++ "::".toList ++
          subsliceText (segments.drop (z.start + z.len))
      else subsliceText segments

/-! ### What is read -/

/-- The colons of a text. -/
def colons (s : Text) : Nat := s.count ':'

theorem colons_given {s rest : Text} (h : given ':' s = some rest) :
    colons rest + 1 = colons s := by
  rw [given_eq_some_iff] at h
  subst h
  exact List.count_cons_self.symm

theorem colons_le_of_suffix {s rest : Text} (h : rest <:+ s) : colons rest ≤ colons s :=
  h.sublist.count_le ':'

theorem number_suffix {N : NumberSyntax} {s rest : Text} {n : Nat}
    (h : number N s = some (n, rest)) : rest <:+ s := by
  obtain ⟨ds, rfl, -⟩ := number_eq_some h
  exact List.suffix_append ds rest

theorem group_suffix {s rest : Text} {g : UInt16} (h : group s = some (g, rest)) : rest <:+ s := by
  obtain ⟨⟨n, r⟩, hn, heq⟩ := Option.map_eq_some_iff.mp h
  cases heq
  exact number_suffix hn

theorem ipv4_suffix {s rest : Text} {x : Ipv4Addr} (h : ipv4 s = some (x, rest)) : rest <:+ s := by
  obtain ⟨rfl, -⟩ := ipv4_iff.mp h
  exact List.suffix_append _ rest

theorem separated_suffix {α : Type} {x : Scan α} {first : Bool} {s rest : Text} {v : α}
    (hx : ∀ {s rest v}, x s = some (v, rest) → rest <:+ s)
    (h : separated first x s = some (v, rest)) : rest <:+ s := by
  cases first with
  | true => exact hx h
  | false =>
      obtain ⟨t, ht, hv⟩ := Option.bind_eq_some_iff.mp h
      rw [given_eq_some_iff.mp ht]
      exact (hx hv).trans (List.suffix_cons _ _)

theorem colons_separated {α : Type} {x : Scan α} {s rest : Text} {v : α}
    (hx : ∀ {s rest v}, x s = some (v, rest) → rest <:+ s)
    (h : separated false x s = some (v, rest)) : colons rest + 1 ≤ colons s := by
  obtain ⟨t, ht, hv⟩ := Option.bind_eq_some_iff.mp h
  rw [← colons_given ht]
  exact Nat.add_le_add_right (colons_le_of_suffix (hx hv)) 1

/-- What the groups are read from: an IPv4 address, a group and more of them, or nothing. -/
theorem readGroups_cases (n : Nat) (first : Bool) (s : Text) :
    (∃ x t, separated first ipv4 s = some (x, t) ∧
      readGroups (n + 1) first s = ((x.groups, true), t)) ∨
    (∃ g t, separated first group s = some (g, t) ∧ readGroups (n + 1) first s =
      ((g :: (readGroups n false t).1.1, (readGroups n false t).1.2), (readGroups n false t).2)) ∨
    readGroups (n + 1) first s = (([], false), s) := by
  rw [readGroups]
  split
  · rename_i x t hx
    split at hx
    · cases hx
    · exact .inl ⟨x, t, hx, rfl⟩
  · split
    · exact .inr (.inr rfl)
    · rename_i g t hg
      exact .inr (.inl ⟨g, t, hg, rfl⟩)

theorem readGroups_suffix : ∀ (n : Nat) (first : Bool) (s : Text), (readGroups n first s).2 <:+ s
  | 0, _, s => List.suffix_refl s
  | n + 1, first, s => by
      rcases readGroups_cases n first s with ⟨x, t, hx, h⟩ | ⟨g, t, hg, h⟩ | h
      · rw [h]
        exact separated_suffix ipv4_suffix hx
      · rw [h]
        exact (readGroups_suffix n false t).trans (separated_suffix group_suffix hg)
      · simp only [h, List.suffix_refl]

/-- A colon is read for every two groups at least. -/
theorem colons_readGroups : ∀ (n : Nat) (s : Text),
    2 * colons (readGroups n false s).2 + (readGroups n false s).1.1.length ≤ 2 * colons s
  | 0, s => Nat.le_refl _
  | n + 1, s => by
      rcases readGroups_cases n false s with ⟨x, t, hx, h⟩ | ⟨g, t, hg, h⟩ | h <;> rw [h]
      · have hle := colons_separated ipv4_suffix hx
        simp only [Ipv4Addr.groups, List.length_cons, List.length_nil]
        omega
      · have hle := colons_separated group_suffix hg
        have ih := colons_readGroups n t
        simp only [List.length_cons]
        omega
      · exact Nat.le_refl _

/-- **An IPv6 address has two colons at least.** -/
theorem colons_ipv6 {s rest : Text} {segments : List UInt16}
    (h : ipv6 s = some (segments, rest)) : colons rest + 2 ≤ colons s := by
  simp only [ipv6] at h
  split at h
  · rename_i hlen
    cases h
    rcases readGroups_cases 7 true s with ⟨x, t, -, he⟩ | ⟨g, t, hg, he⟩ | he <;>
      rw [he] at hlen ⊢
    · cases hlen
    · have hlen : (readGroups 7 false t).1.1.length = 7 := Nat.succ.inj hlen
      have hle := colons_readGroups 7 t
      have hsuffix := colons_le_of_suffix (group_suffix hg)
      simp only
      omega
    · cases hlen
  split at h
  · cases h
  · simp only [Option.bind_eq_bind, Option.bind_eq_some_iff] at h
    obtain ⟨s₁, h₁, s₂, h₂, heq⟩ := h
    cases heq
    have hhead := colons_le_of_suffix (readGroups_suffix 8 true s)
    have htail := colons_le_of_suffix
      (readGroups_suffix (8 - ((readGroups 8 true s).1.1.length + 1)) true s₂)
    rw [← colons_given h₁, ← colons_given h₂] at hhead
    omega

/-! ### What is written is read -/

/-- No address goes on in what is left. -/
def Closes (rest : Text) : Prop := ∀ c ∈ rest.head?, isDigitOf 16 c = false ∧ c ≠ ':' ∧ c ≠ '.'

/-- No group goes on in what is left, nor is there one more. -/
def Stops (rest : Text) : Prop := Closes rest ∨ ∃ t, rest = ':' :: ':' :: t

/-- A group ends, and is not the first part of an IPv4 address. -/
def GroupEnds (rest : Text) : Prop := Ends (isDigitOf 16) rest ∧ rest.head? ≠ some '.'

theorem GroupEnds.colon (s : Text) : GroupEnds (':' :: s) :=
  ⟨fun c hc => by cases hc; rfl, fun h => by cases h⟩

theorem Closes.groupEnds {rest : Text} (h : Closes rest) : GroupEnds rest :=
  ⟨fun c hc => (h c hc).1, fun hd => (h '.' hd).2.2 rfl⟩

theorem Stops.groupEnds {rest : Text} (h : Stops rest) (segments : List UInt16) :
    GroupEnds (moreText segments ++ rest) := by
  cases segments with
  | cons g segments => exact .colon _
  | nil =>
      rcases h with h | ⟨t, rfl⟩
      · exact h.groupEnds
      · exact .colon _

theorem ends_ten {s : Text} (h : Ends (isDigitOf 16) s) : Ends (isDigitOf 10) s := fun c hc =>
  Bool.eq_false_iff.mpr fun hd => by
    have hhex := isDigitOf_mono (by decide : 10 ≤ 16) hd
    rw [h c hc] at hhex
    cases hhex

theorem group_none {s : Text} (h : Ends (isDigitOf 16) s) : group s = none := by
  have hnum : number groupSyntax s = none := number_none h
  rw [group, hnum]
  rfl

theorem ipv4_none {s : Text} (h : Ends (isDigitOf 16) s) : ipv4 s = none := by
  have hnum : number octetSyntax s = none := number_none (ends_ten h)
  rw [ipv4, octet, hnum]
  rfl

theorem group_text {g : UInt16} {rest : Text} (h : Ends (isDigitOf 16) rest) :
    group (groupText g ++ rest) = some (g, rest) := by
  have hmax : g.toNat ≤ groupSyntax.max := Nat.le_of_lt_succ g.toNat_lt
  have hlen : ∀ m ∈ groupSyntax.maxDigits, (numeral groupSyntax.radix g.toNat).length ≤ m := by
    intro m hm
    cases hm
    exact (Nat.length_toDigits_le_iff (by decide) (by decide)).mpr
      (Nat.lt_of_lt_of_le g.toNat_lt (by decide))
  have hnum : number groupSyntax (numeral 16 g.toNat ++ rest) = some (g.toNat, rest) :=
    number_numeral (by decide) (by decide) hmax hlen h
  rw [group, groupText, hnum]
  simp

/-- A group that no dot follows is not read as an IPv4 address. -/
theorem ipv4_groupText {g : UInt16} {rest : Text} (h : GroupEnds rest) :
    ipv4 (groupText g ++ rest) = none := by
  refine Option.eq_none_iff_forall_ne_some.mpr fun ⟨x, t⟩ hx => h.2 ?_
  obtain ⟨htext, -⟩ := ipv4_iff.mp hx
  have hhex : ∀ c ∈ groupText g, isDigitOf 16 c = true :=
    isDigitOf_numeral (by decide) (by decide) _
  have hdec : ∀ c ∈ octetText x.a, isDigitOf 16 c = true := fun c hc =>
    isDigitOf_mono (by decide) (isDigitOf_numeral (by decide) (by decide) _ c hc)
  have hdot : ∀ s, Ends (isDigitOf 16) ('.' :: s) := fun s c hc => by
    cases hc
    rfl
  have hleft := (takeWhile_append_ends hhex h.1).2
  have hright := (takeWhile_append_ends hdec (hdot (octetText x.b ++ '.' :: (octetText x.c ++
    '.' :: octetText x.d) ++ t))).2
  rw [htext] at hleft
  rw [← hleft, Ipv4Addr.toText]
  simp only [List.append_assoc, List.cons_append] at hright ⊢
  rw [hright]
  rfl

/-- Nothing is read where the groups stop. -/
theorem Stops.blocked {rest : Text} (h : Stops rest) (first : Bool) :
    separated first ipv4 rest = none ∧ separated first group rest = none := by
  have hends : Ends (isDigitOf 16) rest := (h.groupEnds []).1
  cases first with
  | true => exact ⟨ipv4_none hends, group_none hends⟩
  | false =>
      rcases h with h | ⟨t, rfl⟩
      · have hgiven : given ':' rest = none := by
          refine Option.eq_none_iff_forall_ne_some.mpr fun t ht => ?_
          rw [given_eq_some_iff] at ht
          exact (h ':' (by rw [ht]; rfl)).2.1 rfl
        simp [separated, hgiven]
      · have hcolon : Ends (isDigitOf 16) (':' :: t) := (GroupEnds.colon t).1
        simp [separated, ipv4_none hcolon, group_none hcolon]

theorem readGroups_stops {rest : Text} (h : Stops rest) (n : Nat) (first : Bool) :
    readGroups n first rest = (([], false), rest) := by
  obtain ⟨hipv4, hgroup⟩ := h.blocked first
  cases n with
  | zero => rfl
  | succ n =>
      rw [readGroups, hipv4, hgroup, ite_self]

theorem readGroups_first {g : UInt16} {more : Text} (h : GroupEnds more) (n : Nat) :
    readGroups (n + 1) true (groupText g ++ more) =
      ((g :: (readGroups n false more).1.1, (readGroups n false more).1.2),
        (readGroups n false more).2) := by
  have hipv4 : separated true ipv4 (groupText g ++ more) = none := ipv4_groupText h
  have hgroup : separated true group (groupText g ++ more) = some (g, more) := group_text h.1
  rw [readGroups, hipv4, hgroup, ite_self]

theorem readGroups_next {g : UInt16} {more : Text} (h : GroupEnds more) (n : Nat) :
    readGroups (n + 1) false (':' :: (groupText g ++ more)) =
      ((g :: (readGroups n false more).1.1, (readGroups n false more).1.2),
        (readGroups n false more).2) := by
  have hipv4 : separated false ipv4 (':' :: (groupText g ++ more)) = none := by
    simp [separated, ipv4_groupText h]
  have hgroup : separated false group (':' :: (groupText g ++ more)) = some (g, more) := by
    simp [separated, group_text h.1]
  rw [readGroups, hipv4, hgroup, ite_self]

/-- **The groups that are written are read**, up to where they stop. -/
theorem readGroups_more {rest : Text} (h : Stops rest) :
    ∀ (segments : List UInt16) (n : Nat), segments.length ≤ n →
      readGroups n false (moreText segments ++ rest) = ((segments, false), rest)
  | [], n, _ => readGroups_stops h n false
  | g :: segments, 0, hn => absurd hn (Nat.not_succ_le_zero _)
  | g :: segments, n + 1, hn => by
      have ih := readGroups_more h segments n (Nat.le_of_succ_le_succ hn)
      have htext : moreText (g :: segments) ++ rest =
          ':' :: (groupText g ++ (moreText segments ++ rest)) := by simp [moreText]
      rw [htext, readGroups_next (h.groupEnds segments), ih]

theorem readGroups_subslice {rest : Text} (h : Stops rest) {segments : List UInt16} {n : Nat}
    (hn : segments.length ≤ n) :
    readGroups n true (subsliceText segments ++ rest) = ((segments, false), rest) := by
  cases segments with
  | nil => exact readGroups_stops h n true
  | cons g segments =>
      cases n with
      | zero => exact absurd hn (Nat.not_succ_le_zero _)
      | succ n =>
          rw [subsliceText, List.append_assoc, readGroups_first (h.groupEnds segments),
            readGroups_more h segments n (Nat.le_of_succ_le_succ hn)]

/-- Zeros of a list, at an offset. -/
def ZeroRun (segments : List UInt16) (z : Span) : Prop :=
  ∃ pre post, segments = pre ++ List.replicate z.len 0 ++ post ∧ pre.length = z.start

theorem ZeroRun.append {segments : List UInt16} {z : Span} (h : ZeroRun segments z)
    (more : List UInt16) : ZeroRun (segments ++ more) z := by
  obtain ⟨pre, post, rfl, hlen⟩ := h
  exact ⟨pre, post ++ more, by simp, hlen⟩

theorem ZeroRun.either {segments : List UInt16} {z z' : Span} (h : ZeroRun segments z)
    (h' : ZeroRun segments z') (p : Prop) [Decidable p] :
    ZeroRun segments (if p then z else z') := by
  split
  · exact h
  · exact h'

/-- The run that ends where the loop is: it may be empty. -/
def Trailing (done : List UInt16) (current : Span) : Prop :=
  ∃ pre, done = pre ++ List.replicate current.len 0 ∧
    (current.len ≠ 0 → pre.length = current.start)

theorem Trailing.zeroRun {done : List UInt16} {current : Span} (h : Trailing done current)
    (hlen : current.len ≠ 0) : ZeroRun done current := by
  obtain ⟨pre, rfl, hpre⟩ := h
  exact ⟨pre, [], (List.append_nil _).symm, hpre hlen⟩

theorem Trailing.zero {done : List UInt16} {current : Span} (h : Trailing done current) :
    Trailing (done ++ [0])
      { start := if current.len = 0 then done.length else current.start,
        len := current.len + 1 } := by
  obtain ⟨pre, rfl, hpre⟩ := h
  refine ⟨pre, by simp [List.replicate_succ'], fun _ => ?_⟩
  split
  · rename_i hlen
    simp [hlen]
  · rename_i hlen
    exact hpre hlen

/-- What the loop finds is a run of zeros. -/
theorem zeroes_spec : ∀ (segments done : List UInt16) (current longest : Span),
    Trailing done current → ZeroRun done longest →
      ZeroRun (done ++ segments) (zeroes segments done.length current longest)
  | [], done, _, longest, _, hlong => hlong.append []
  | x :: segments, done, current, longest, hcur, hlong => by
      have hsplit : done ++ x :: segments = (done ++ [x]) ++ segments := by simp
      have hlength : done.length + 1 = (done ++ [x]).length := by simp
      rw [zeroes, hsplit, hlength]
      split
      · rename_i hx
        subst hx
        have hnew := hcur.zero.zeroRun (Nat.succ_ne_zero _)
        exact zeroes_spec segments _ _ _ hcur.zero (hnew.either (hlong.append [0]) _)
      · exact zeroes_spec segments _ _ _ ⟨done ++ [x], by simp, fun h => absurd rfl h⟩
          (hlong.append [x])

theorem fromBeBytes_toNat (g : UInt16) :
    fromBeBytes (.ofNat (g.toNat / 256)) (.ofNat g.toNat) = g := by
  refine UInt16.toNat_inj.mp ?_
  have hg := g.toNat_lt
  simp only [fromBeBytes, UInt8.toNat_ofNat', UInt16.toNat_ofNat']
  omega

theorem toIpv4Mapped_eq_some {segments : List UInt16} {x : Ipv4Addr}
    (h : toIpv4Mapped segments = some x) : segments = [0, 0, 0, 0, 0, 0xffff] ++ x.groups := by
  unfold toIpv4Mapped at h
  split at h
  · cases h
    rw [Ipv4Addr.groups, fromBeBytes_toNat, fromBeBytes_toNat]
    rfl
  · cases h

/-- The text of an IPv6 address that is mapped from an IPv4 one. -/
theorem ipv6_mapped {x : Ipv4Addr} {rest : Text} (hrest : Closes rest) :
    ipv6 ("::ffff:".toList ++ x.toText ++ rest) =
      some ([0, 0, 0, 0, 0, 0xffff] ++ x.groups, rest) := by
  have hends : Ends (isDigitOf 10) rest := ends_ten hrest.groupEnds.1
  have htext : "::ffff:".toList ++ x.toText ++ rest =
      ':' :: ':' :: (groupText 0xffff ++ ':' :: (x.toText ++ rest)) := by
    have hgroup : groupText 0xffff = "ffff".toList := by decide
    simp [hgroup]
  have hipv4 : separated false ipv4 (':' :: (x.toText ++ rest)) = some (x, rest) := by
    simpa [separated] using ipv4_iff.mpr ⟨rfl, hends⟩
  have htail : readGroups 7 true (groupText 0xffff ++ ':' :: (x.toText ++ rest)) =
      ((0xffff :: x.groups, true), rest) := by
    rw [readGroups_first (.colon _), readGroups, hipv4]
    rfl
  have hhead : readGroups 8 true (':' :: ':' :: (groupText 0xffff ++ ':' :: (x.toText ++ rest))) =
      (([], false), ':' :: ':' :: (groupText 0xffff ++ ':' :: (x.toText ++ rest))) :=
    readGroups_stops (.inr ⟨_, rfl⟩) 8 true
  rw [htext, ipv6, hhead]
  simp only [List.length_nil, given_cons, Option.bind_eq_bind, Option.bind_some]
  rw [htail]
  rfl

/-- Of an address with zeros left out. -/
theorem ipv6_compressed {pre post : List UInt16} {rest : Text} {n : Nat} (hn : n ≠ 0)
    (hlen : (pre ++ List.replicate n 0 ++ post).length = 8) (hrest : Closes rest) :
    ipv6 (subsliceText pre ++ "::".toList ++ subsliceText post ++ rest) =
      some (pre ++ List.replicate n 0 ++ post, rest) := by
  simp only [List.length_append, List.length_replicate] at hlen
  have htext : subsliceText pre ++ "::".toList ++ subsliceText post ++ rest =
      subsliceText pre ++ ':' :: ':' :: (subsliceText post ++ rest) := by simp
  have hhead : readGroups 8 true (subsliceText pre ++ ':' :: ':' :: (subsliceText post ++ rest)) =
      ((pre, false), ':' :: ':' :: (subsliceText post ++ rest)) :=
    readGroups_subslice (.inr ⟨_, rfl⟩) (by omega)
  have htail : readGroups (8 - (pre.length + 1)) true (subsliceText post ++ rest) =
      ((post, false), rest) := readGroups_subslice (.inl hrest) (by omega)
  have hne : pre.length ≠ 8 := by omega
  have hgap : 8 - pre.length - post.length = n := by omega
  rw [htext, ipv6, hhead]
  simp only [hne, if_false, given_cons, Option.bind_eq_bind, Option.bind_some]
  rw [htail]
  simp only [hgap]
  rfl

/-- **An IPv6 address that is written is read back.** -/
theorem ipv6_toText {segments : List UInt16} {rest : Text} (hlen : segments.length = 8)
    (hrest : Closes rest) : ipv6 (ipv6Text segments ++ rest) = some (segments, rest) := by
  rw [ipv6Text]
  split
  · rename_i x hx
    rw [toIpv4Mapped_eq_some hx]
    exact ipv6_mapped hrest
  · have hrun : ZeroRun segments (zeroes segments 0 {} {}) :=
      zeroes_spec segments [] {} {} ⟨[], rfl, fun h => absurd rfl h⟩ ⟨[], [], rfl, rfl⟩
    generalize zeroes segments 0 {} {} = z at hrun
    dsimp only
    split
    · rename_i hz
      obtain ⟨pre, post, rfl, hpre⟩ := hrun
      have htake : (pre ++ List.replicate z.len 0 ++ post).take z.start = pre := by
        rw [List.append_assoc, ← hpre, List.take_left]
      have hdrop : (pre ++ List.replicate z.len 0 ++ post).drop (z.start + z.len) = post := by
        rw [← hpre]
        exact List.drop_left' (by simp)
      rw [htake, hdrop]
      exact ipv6_compressed (Nat.ne_of_gt (Nat.lt_of_succ_lt hz)) hlen hrest
    · have hhead := readGroups_subslice (.inl hrest) (Nat.le_of_eq hlen)
      simp only [ipv6, hhead, hlen, if_true]

end Library
