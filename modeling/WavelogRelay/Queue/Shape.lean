import WavelogRelay.Queue.Model
import Mathlib.Data.List.ReduceOption

/-!
# Queue — what a queue file holds

A write to the end of the file may be cut short anywhere, and a later one then goes on where it
stopped.  So a queue file holds lines, each made of one or more *pieces*: a piece is what one
write left of an entry's line, newline apart.  `FileShape` is such a file, `FileShape.bytes` its
bytes.

* `parse_shape`: what `parse_entries` makes of a file of a shape, once its bytes are text.  A
  line of one whole piece reads as its entry, and any other line does not parse.
-/

namespace WavelogRelay.Queue
open Library

variable {J : SerdeJson}

/-! ### Text the codec writes -/

/-- A line of the codec, or the front of one: it begins with a brace, and has no control
characters. -/
structure Plain (t : Text) : Prop where
  brace : ∃ b, t = '{' :: b
  no_control : ∀ c ∈ t, 0x20 ≤ c.val

namespace Plain

theorem isLine {t : Text} (h : Plain t) : IsLine t :=
  ⟨fun hm => absurd (h.no_control _ hm) (by decide),
    fun hl => absurd (h.no_control _ (List.mem_of_getLast? hl)) (by decide)⟩

theorem not_blank {t : Text} (h : Plain t) : isBlank t = false := by
  obtain ⟨b, rfl⟩ := h.brace
  have : isWhitespace '{' = false := by decide
  simp [isBlank, this]

theorem ne_nil {t : Text} (h : Plain t) : t ≠ [] := by
  obtain ⟨b, rfl⟩ := h.brace
  exact List.cons_ne_nil _ _

theorem flatten {ts : List Text} (hne : ts ≠ []) (h : ∀ t ∈ ts, Plain t) : Plain ts.flatten := by
  obtain ⟨t, ts, rfl⟩ := List.exists_cons_of_ne_nil hne
  obtain ⟨b, rfl⟩ := (h t (by simp)).brace
  refine ⟨⟨b ++ ts.flatten, rfl⟩, fun c hc => ?_⟩
  obtain ⟨u, hu, hc⟩ := List.mem_flatten.mp hc
  exact (h u hu).no_control c hc

end Plain

/-- The front of a line, unless nothing is left of it. -/
theorem SerdeJson.Lawful.plain (hJ : J.Lawful) {e : Entry} {t : Text} (ht : t <+: J.toString e)
    (hne : t ≠ []) : Plain t := by
  obtain ⟨c, t, rfl⟩ := List.exists_cons_of_ne_nil hne
  refine ⟨⟨t, ?_⟩, fun d hd => hJ.no_control e d (ht.subset hd)⟩
  obtain ⟨b, hb⟩ := hJ.brace e
  obtain ⟨r, hr⟩ := ht
  rw [hb] at hr
  rw [(List.cons.inj hr).1]

theorem SerdeJson.Lawful.toString_ne_nil (hJ : J.Lawful) (e : Entry) : J.toString e ≠ [] := by
  obtain ⟨b, hb⟩ := hJ.brace e
  simp [hb]

theorem SerdeJson.Lawful.byteLen_pos (hJ : J.Lawful) (e : Entry) : 0 < byteLen (J.toString e) := by
  obtain ⟨b, hb⟩ := hJ.brace e
  have := ('{').utf8Size_pos
  rw [hb, byteLen_cons]
  omega

theorem not_mem_utf8 {s : Text} (h : '\n' ∉ s) : (10 : UInt8) ∉ utf8 s := fun hm => by
  obtain ⟨a, b, hab⟩ := List.append_of_mem hm
  obtain ⟨t, u, rfl, -, hu⟩ := utf8_split hab (by rintro x ⟨⟩; decide)
  have hnl : utf8 ['\n'] <+: utf8 u := ⟨b, hu.symm⟩
  obtain ⟨r, rfl⟩ := isPrefix_of_utf8 hnl
  simp at h

/-! ### The loop over the lines -/

/-- **How the loop ends**: every line parses, all but the last do, or an earlier one does not. -/
theorem parseLines_cases (J : SerdeJson) : ∀ (ls : List Text) (acc : List Entry),
    (∃ es, ls.map J.fromStr = es.map some ∧ parseLines J ls acc = some ⟨acc ++ es, false⟩) ∨
    (∃ es, ls.map J.fromStr = es.map some ++ [none] ∧
      parseLines J ls acc = some ⟨acc ++ es, true⟩) ∨
    (∃ pre post, ls.map J.fromStr = pre ++ none :: post ∧ post ≠ [] ∧ parseLines J ls acc = none)
  | [], acc => .inl ⟨[], rfl, by simp [parseLines]⟩
  | l :: ls, acc => by
      cases h : J.fromStr l with
      | some e =>
          rcases parseLines_cases J ls (acc ++ [e]) with ⟨es, hm, hp⟩ | ⟨es, hm, hp⟩ |
            ⟨pre, post, hm, hpost, hp⟩
          · exact .inl ⟨e :: es, by simp [h, hm], by simp [parseLines, h, hp]⟩
          · exact .inr (.inl ⟨e :: es, by simp [h, hm], by simp [parseLines, h, hp]⟩)
          · exact .inr (.inr ⟨some e :: pre, post, by simp [h, hm], hpost, by
              simp [parseLines, h, hp]⟩)
      | none =>
          by_cases hls : ls = []
          · subst hls
            exact .inr (.inl ⟨[], by simp [h], by simp [parseLines, h]⟩)
          · exact .inr (.inr ⟨[], ls.map J.fromStr, by simp [h], by simpa using hls, by
              simp [parseLines, h, hls]⟩)

theorem lines_of_plain {ls : List Text} {last : Text} (hls : ∀ l ∈ ls, Plain l)
    (hlast : last = [] ∨ Plain last) :
    ((lines (ls.flatMap (· ++ ['\n']) ++ last)).filter fun l => !isBlank l) =
      ls ++ if last = [] then [] else [last] := by
  have hnl : '\n' ∉ last := by
    rcases hlast with rfl | h
    · simp
    · exact h.isLine.1
  rw [lines_flatMap_append (fun l hl => (hls l hl).isLine) hnl, List.filter_eq_self.mpr]
  intro l hl
  rcases List.mem_append.mp hl with hl | hl
  · simp [(hls l hl).not_blank]
  · by_cases h : last = []
    · simp [h] at hl
    · rw [if_neg h, List.mem_singleton] at hl
      rw [hl, (hlast.resolve_left h).not_blank]
      rfl

theorem parseEntries_of_plain {ls : List Text} {last : Text} (hls : ∀ l ∈ ls, Plain l)
    (hlast : last = [] ∨ Plain last) :
    parseEntries J (ls.flatMap (· ++ ['\n']) ++ last) =
      parseLines J (ls ++ if last = [] then [] else [last]) [] := by
  rw [parseEntries, lines_of_plain hls hlast]

/-! ### Pieces and lines -/

/-- What one write left of an entry's line, newline apart. -/
structure Piece (J : SerdeJson) where
  entry : Entry
  bytes : Bytes
  ne_nil : bytes ≠ []
  within : bytes <+: utf8 (J.toString entry)

namespace Piece

abbrev IsWhole (p : Piece J) : Prop := p.bytes = utf8 (J.toString p.entry)

def whole (hJ : J.Lawful) (e : Entry) : Piece J where
  entry := e
  bytes := utf8 (J.toString e)
  ne_nil h := hJ.toString_ne_nil e (utf8_injective (by simpa using h))
  within := List.prefix_rfl

/-- The first `n` bytes of a line. -/
def cut (hJ : J.Lawful) (e : Entry) (n : Nat) (hn : n ≠ 0) : Piece J where
  entry := e
  bytes := (utf8 (J.toString e)).take n
  ne_nil h := by
    rcases List.take_eq_nil_iff.mp h with h | h
    · exact hn h
    · exact (whole hJ e).ne_nil h
  within := List.take_prefix _ _

theorem head? (hJ : J.Lawful) (p : Piece J) : p.bytes.head? = some 123 := by
  obtain ⟨b, hb⟩ := hJ.brace p.entry
  obtain ⟨r, hr⟩ := p.within
  obtain ⟨x, bs, hx⟩ := List.exists_cons_of_ne_nil p.ne_nil
  rw [hb, hx] at hr
  have : x = 123 := (List.cons.inj hr).1
  simp [hx, this]

end Piece

/-- The bytes of a line of pieces. -/
def lineOf (ps : List (Piece J)) : Bytes := ps.flatMap (·.bytes)

/-- What a line reads as. -/
def readLine : List (Piece J) → Option Entry
  | [p] => if p.IsWhole then some p.entry else none
  | _ => none

@[simp] theorem lineOf_nil : lineOf ([] : List (Piece J)) = [] := rfl

@[simp] theorem lineOf_cons (p : Piece J) (ps : List (Piece J)) :
    lineOf (p :: ps) = p.bytes ++ lineOf ps := rfl

@[simp] theorem lineOf_append (ps qs : List (Piece J)) :
    lineOf (ps ++ qs) = lineOf ps ++ lineOf qs := by
  simp [lineOf]

theorem lineOf_ne_nil {ps : List (Piece J)} (h : ps ≠ []) : lineOf ps ≠ [] := by
  obtain ⟨p, ps, rfl⟩ := List.exists_cons_of_ne_nil h
  simp [p.ne_nil]

/-- When the bytes of a line are text, so are those of each piece: every piece begins with a
brace. -/
theorem texts_of_lineOf (hJ : J.Lawful) : ∀ {ps : List (Piece J)} {t : Text}, ps ≠ [] →
    utf8 t = lineOf ps → ∃ ts : List Text, ts.flatten = t ∧ ts.length = ps.length ∧
      ∀ u ∈ ts, u ≠ [] ∧ ∃ p ∈ ps, utf8 u = p.bytes
  | [], _, h, _ => absurd rfl h
  | [p], t, _, h => by
      have hp : utf8 t = p.bytes := by simpa using h
      have ht : t ≠ [] := by
        rintro rfl
        exact p.ne_nil hp.symm
      exact ⟨[t], by simp, rfl, by simp [hp, ht]⟩
  | p :: q :: ps, t, _, h => by
      have hq : ∀ x, (lineOf (q :: ps)).head? = some x → x.toNat < 128 := by
        intro x hx
        rw [lineOf_cons, List.head?_append, q.head? hJ] at hx
        cases hx
        decide
      obtain ⟨u, v, rfl, hu, hv⟩ := utf8_split (a := p.bytes) h hq
      obtain ⟨ts, rfl, hlen, hts⟩ := texts_of_lineOf hJ (List.cons_ne_nil q ps) hv
      have hne : u ≠ [] := by
        rintro rfl
        exact p.ne_nil hu.symm
      refine ⟨u :: ts, rfl, by simp [hlen], fun w hw => ?_⟩
      rcases List.mem_cons.mp hw with rfl | hw
      · exact ⟨hne, p, by simp, hu⟩
      · obtain ⟨hw', r, hr, hwr⟩ := hts w hw
        exact ⟨hw', r, List.mem_cons_of_mem p hr, hwr⟩

/-- **A line reads as its entry exactly when it is one whole piece.** -/
theorem readLine_spec (hJ : J.Strict) {ps : List (Piece J)} {t : Text} (hne : ps ≠ [])
    (h : utf8 t = lineOf ps) : Plain t ∧ J.fromStr t = readLine ps := by
  obtain ⟨ts, rfl, hlen, hts⟩ := texts_of_lineOf hJ.toLawful hne h
  have hfront : ∀ u ∈ ts, u ≠ [] ∧ ∃ e, u <+: J.toString e := fun u hu => by
    obtain ⟨hu', p, -, hp⟩ := hts u hu
    exact ⟨hu', p.entry, isPrefix_of_utf8 (hp ▸ p.within)⟩
  have htne : ts ≠ [] := by
    rintro rfl
    exact hne (List.eq_nil_of_length_eq_zero hlen.symm)
  refine ⟨.flatten htne fun u hu => ?_, ?_⟩
  · obtain ⟨hu', e, he⟩ := hfront u hu
    exact hJ.toLawful.plain he hu'
  · match ps, ts, hlen with
    | [p], [u], _ =>
        have hu : utf8 u = p.bytes := by simpa using h
        have hpre : u <+: J.toString p.entry := isPrefix_of_utf8 (hu ▸ p.within)
        simp only [List.flatten_cons, List.flatten_nil, List.append_nil, readLine]
        by_cases hw : p.IsWhole
        · rw [if_pos hw, utf8_injective (hu.trans hw), hJ.round_trip]
        · rw [if_neg hw]
          exact hJ.truncated p.entry u hpre fun e => hw (by rw [Piece.IsWhole, ← hu, e])
    | p :: q :: ps, u :: v :: ts, _ =>
        rw [hJ.spliced _ (by simp) hfront]
        rfl

/-! ### Files -/

structure FileShape (J : SerdeJson) where
  lines : List (List (Piece J))
  tail : List (Piece J)
  lines_ne : ∀ ps ∈ lines, ps ≠ []

namespace FileShape

variable (sh : FileShape J)

def bytes : Bytes := sh.lines.flatMap (fun ps => lineOf ps ++ [10]) ++ lineOf sh.tail

/-- All the pieces, in order. -/
def pieces : List (Piece J) := sh.lines.flatten ++ sh.tail

def seqs : List UInt64 := sh.pieces.map (·.entry.seq)

/-- What the lines read as; the text after the last newline counts when there is some. -/
def reads : List (Option Entry) :=
  sh.lines.map readLine ++ if sh.tail = [] then [] else [readLine sh.tail]

/-- The entries that read back. -/
def entries : List Entry := sh.reads.reduceOption

/-- Every line reads back, and at most one piece follows the last newline. -/
structure Clean : Prop where
  lines : ∀ ps ∈ sh.lines, readLine ps ≠ none
  tail : sh.tail.length ≤ 1

/-- Everything reads back. -/
def Settled : Prop := none ∉ sh.reads

def empty : FileShape J := ⟨[], [], by simp⟩

def ofEntries (hJ : J.Lawful) (es : List Entry) : FileShape J where
  lines := es.map fun e => [Piece.whole hJ e]
  tail := []
  lines_ne := by simp

end FileShape

/-- When the bytes of some lines are text, so is each line. -/
theorem texts_of_lines (hJ : J.Strict) {tail : List (Piece J)} : ∀ {lns : List (List (Piece J))}
    {t : Text}, (∀ ps ∈ lns, ps ≠ []) →
    utf8 t = lns.flatMap (fun ps => lineOf ps ++ [10]) ++ lineOf tail →
    ∃ (ls : List Text) (last : Text), t = ls.flatMap (· ++ ['\n']) ++ last ∧
      (∀ l ∈ ls, Plain l) ∧ ls.map J.fromStr = lns.map readLine ∧ utf8 last = lineOf tail
  | [], t, _, h => ⟨[], t, rfl, by simp, rfl, by simpa using h⟩
  | ps :: lns, t, hne, h => by
      have h' : utf8 t = lineOf ps ++
          (10 :: (lns.flatMap (fun ps => lineOf ps ++ [10]) ++ lineOf tail)) := by
        simpa using h
      obtain ⟨l, u, rfl, hl, hu⟩ := utf8_split h' (by rintro x ⟨⟩; decide)
      obtain ⟨v, rfl⟩ : ['\n'] <+: u := isPrefix_of_utf8 ⟨_, hu.symm⟩
      have hv : utf8 v = lns.flatMap (fun ps => lineOf ps ++ [10]) ++ lineOf tail := by
        rw [utf8_append] at hu
        exact (List.cons.inj hu).2
      obtain ⟨ls, last, rfl, hls, hmap, hlast⟩ :=
        texts_of_lines hJ (fun qs hqs => hne qs (List.mem_cons_of_mem ps hqs)) hv
      obtain ⟨hplain, hread⟩ := readLine_spec hJ (hne ps (by simp)) hl
      refine ⟨l :: ls, last, by simp, ?_, by simp [hread, hmap], hlast⟩
      intro m hm
      rcases List.mem_cons.mp hm with rfl | hm
      · exact hplain
      · exact hls m hm

/-- **The lines of a file of a shape** read as the shape says. -/
theorem lines_shape (hJ : J.Strict) {sh : FileShape J} {t : Text} (h : utf8 t = sh.bytes) :
    ((lines t).filter fun l => !isBlank l).map J.fromStr = sh.reads := by
  obtain ⟨ls, last, rfl, hls, hmap, hlast⟩ := texts_of_lines hJ sh.lines_ne h
  by_cases htail : sh.tail = []
  · have hnil : last = [] := utf8_injective (by simpa [htail] using hlast)
    rw [lines_of_plain hls (.inl hnil)]
    simp [FileShape.reads, htail, hmap, hnil]
  · obtain ⟨hplain, hread⟩ := readLine_spec hJ htail hlast
    rw [lines_of_plain hls (.inr hplain)]
    simp [FileShape.reads, htail, hmap, hread, hplain.ne_nil]

/-- **What `parse_entries` makes of a file of a shape**: it goes over its lines, which read as the
shape says. -/
theorem parse_shape (hJ : J.Strict) {sh : FileShape J} {t : Text} (h : utf8 t = sh.bytes) :
    ∃ ls, parseEntries J t = parseLines J ls [] ∧ ls.map J.fromStr = sh.reads :=
  ⟨_, rfl, lines_shape hJ h⟩

namespace FileShape

theorem settled_empty : (empty : FileShape J).Settled := by simp [Settled, reads, empty]

theorem eq_empty {sh : FileShape J} (h : sh.bytes = []) : sh = empty := by
  obtain ⟨lns, tail, hne⟩ := sh
  obtain ⟨h₁, h₂⟩ := List.append_eq_nil_iff.mp h
  have hlns : lns = [] := by
    cases lns with
    | nil => rfl
    | cons ps lns => simp at h₁
  have htail : tail = [] := by_contra fun hne => lineOf_ne_nil hne h₂
  subst hlns htail
  rfl

section OfEntries

variable (hJ : J.Lawful) (es : List Entry)

@[simp] theorem bytes_ofEntries : (ofEntries hJ es).bytes = utf8 (encode J es) := by
  have h : ∀ e, lineOf [Piece.whole hJ e] ++ [10] = utf8 (J.toString e ++ ['\n']) := fun e => by
    rw [utf8_append]
    simp [Piece.whole, String.utf8EncodeChar]
  simp only [bytes, ofEntries, List.flatMap_map, h, lineOf_nil, List.append_nil, encode]
  simp [utf8, List.flatMap_assoc]

@[simp] theorem reads_ofEntries : (ofEntries hJ es).reads = es.map some := by
  simp [reads, ofEntries, readLine, Piece.whole, Piece.IsWhole, Function.comp_def]

@[simp] theorem entries_ofEntries : (ofEntries hJ es).entries = es := by
  simp [entries, List.reduceOption]

@[simp] theorem seqs_ofEntries : (ofEntries hJ es).seqs = es.map (·.seq) := by
  simp [seqs, pieces, ofEntries, Piece.whole, List.flatten_eq_flatMap, List.flatMap_map,
    ← List.map_eq_flatMap]

theorem settled_ofEntries : (ofEntries hJ es).Settled := by simp [Settled]

end OfEntries

section Facts

variable {sh : FileShape J}

theorem readLine_eq_some {ps : List (Piece J)} {e : Entry} (h : readLine ps = some e) :
    ps.map (·.entry) = [e] := by
  match ps with
  | [] => cases h
  | [p] =>
      simp only [readLine] at h
      split at h
      · simpa using h
      · cases h
  | _ :: _ :: _ => cases h

theorem reduceOption_readLine : ∀ lns : List (List (Piece J)),
    (lns.map readLine).reduceOption.Sublist (lns.flatten.map (·.entry))
  | [] => by simp [List.reduceOption]
  | ps :: lns => by
      have ih := reduceOption_readLine lns
      rw [List.map_cons, List.flatten_cons, List.map_append]
      cases h : readLine ps with
      | none =>
          rw [List.reduceOption_cons_of_none]
          exact ih.trans (List.sublist_append_right _ _)
      | some e =>
          rw [List.reduceOption_cons_of_some, readLine_eq_some h]
          exact ih.cons_cons e

theorem reads_eq :
    sh.reads = (sh.lines ++ if sh.tail = [] then [] else [sh.tail]).map readLine := by
  by_cases h : sh.tail = [] <;> simp [reads, h]

theorem pieces_eq : sh.pieces = (sh.lines ++ if sh.tail = [] then [] else [sh.tail]).flatten := by
  by_cases h : sh.tail = [] <;> simp [pieces, h]

/-- The entries that read back are some of those written, in order. -/
theorem entries_sublist : sh.entries.Sublist (sh.pieces.map (·.entry)) := by
  rw [entries, reads_eq, pieces_eq]
  exact reduceOption_readLine _

theorem seqs_sublist : (sh.entries.map (·.seq)).Sublist sh.seqs := by
  have := (entries_sublist : sh.entries.Sublist _).map (·.seq)
  simpa [seqs, Function.comp_def] using this

theorem entries_of_reads {es : List Entry} (h : sh.reads = es.map some) : sh.entries = es := by
  simp [entries, h, List.reduceOption]

theorem settled_of_reads {es : List Entry} (h : sh.reads = es.map some) : sh.Settled := by
  simp [Settled, h]

theorem Settled.clean (h : sh.Settled) : sh.Clean := by
  constructor
  · intro ps hps hnone
    exact h (by simp only [reads, List.mem_append, List.mem_map]; exact .inl ⟨ps, hps, hnone⟩)
  · match htail : sh.tail with
    | [] => simp
    | [p] => simp
    | p :: q :: ps => exact absurd (by simp [reads, htail, readLine]) h

theorem Settled.pieces (h : sh.Settled) : sh.pieces.map (·.entry) = sh.entries := by
  have hl : ∀ lns : List (List (Piece J)), none ∉ lns.map readLine →
      lns.flatten.map (·.entry) = (lns.map readLine).reduceOption := by
    intro lns
    induction lns with
    | nil => simp [List.reduceOption]
    | cons ps lns ih =>
        intro hnone
        simp only [List.map_cons, List.mem_cons, not_or] at hnone
        obtain ⟨e, he⟩ := Option.ne_none_iff_exists'.mp (Ne.symm hnone.1)
        rw [List.flatten_cons, List.map_append, List.map_cons, he,
          List.reduceOption_cons_of_some, readLine_eq_some he, ih hnone.2]
        rfl
  rw [Settled, reads_eq] at h
  rw [pieces_eq, entries, reads_eq]
  exact hl _ h

theorem Settled.seqs (h : sh.Settled) : sh.seqs = sh.entries.map (·.seq) := by
  rw [← h.pieces]
  simp [FileShape.seqs]

/-- Of a clean file only the text after the last newline may fail to read. -/
theorem Clean.reads (h : sh.Clean) :
    sh.reads = sh.entries.map some ∨ sh.reads = sh.entries.map some ++ [none] := by
  have hl : ∀ lns : List (List (Piece J)), (∀ ps ∈ lns, readLine ps ≠ none) →
      lns.map readLine = (lns.map readLine).reduceOption.map some := by
    intro lns
    induction lns with
    | nil => simp [List.reduceOption]
    | cons ps lns ih =>
        intro hne
        obtain ⟨e, he⟩ := Option.ne_none_iff_exists'.mp (hne ps (by simp))
        have := ih fun qs hqs => hne qs (List.mem_cons_of_mem ps hqs)
        rw [List.map_cons, he, List.reduceOption_cons_of_some, List.map_cons, ← this]
  have hlines := hl sh.lines h.lines
  by_cases htail : sh.tail = []
  · left
    simp only [entries, FileShape.reads, htail, if_true, List.append_nil]
    exact hlines
  · cases hread : readLine sh.tail with
    | none =>
        right
        simp only [entries, FileShape.reads, htail, if_false, hread, List.reduceOption_append,
          List.reduceOption_singleton, Option.toList_none, List.append_nil]
        rw [← hlines]
    | some e =>
        left
        simp only [entries, FileShape.reads, htail, if_false, hread, List.reduceOption_append,
          List.reduceOption_singleton, Option.toList_some, List.map_append]
        rw [← hlines]
        rfl

/-- Only the text after the last newline of a clean file may fail to read. -/
theorem Clean.none_last (h : sh.Clean) {pre post : List (Option Entry)}
    (hreads : sh.reads = pre ++ none :: post) : post = [] := by
  by_contra hpost
  have hmem : ∀ es : List Entry, none ∉ es.map some := by simp
  rcases h.reads with hr | hr <;> rw [hreads] at hr
  · exact hmem sh.entries (hr ▸ by simp)
  · rw [← List.dropLast_append_getLast hpost] at hr
    have hr : (pre ++ none :: post.dropLast) ++ [post.getLast hpost] =
        sh.entries.map some ++ [none] := by simpa using hr
    exact hmem sh.entries (List.append_inj_left' hr rfl ▸ by simp)

end Facts

/-! ### A write at the end -/

/-- The file after the first `n` bytes of an entry's line are written to its end. -/
def write (hJ : J.Lawful) (sh : FileShape J) (e : Entry) (n : Nat) : FileShape J :=
  if h : n = 0 then sh
  else if n ≤ byteLen (J.toString e) then
    { sh with tail := sh.tail ++ [Piece.cut hJ e n h] }
  else
    { lines := sh.lines ++ [sh.tail ++ [Piece.whole hJ e]]
      tail := []
      lines_ne := by
        intro ps hps
        rcases List.mem_append.mp hps with hps | hps
        · exact sh.lines_ne ps hps
        · rw [List.mem_singleton.mp hps]
          simp }

section Write

variable (hJ : J.Lawful) (sh : FileShape J) (e : Entry) (n : Nat)

theorem lineBytes_eq : lineBytes J e = utf8 (J.toString e) ++ [10] := by
  rw [lineBytes, utf8_append]
  rfl

theorem length_lineBytes : (lineBytes J e).length = byteLen (J.toString e) + 1 := by
  simp [lineBytes_eq]

theorem bytes_write : (sh.write hJ e n).bytes = sh.bytes ++ (lineBytes J e).take n := by
  have hlen : (utf8 (J.toString e)).length = byteLen (J.toString e) := length_utf8 _
  unfold write
  split
  · rename_i h
    simp [h]
  · split
    · rename_i hn
      rw [lineBytes_eq, List.take_append_of_le_length (hlen ▸ hn)]
      simp [bytes, Piece.cut]
    · rename_i hn
      rw [List.take_of_length_le (by rw [length_lineBytes]; omega), lineBytes_eq]
      simp [bytes, Piece.whole]

theorem write_zero : sh.write hJ e 0 = sh := dif_pos rfl

theorem seqs_write : (sh.write hJ e n).seqs = sh.seqs ++ if n = 0 then [] else [e.seq] := by
  unfold write
  split
  · simp
  · split <;> simp [seqs, pieces, Piece.cut, Piece.whole]

/-- A line that a piece was written onto reads as that piece, and only if it was empty. -/
theorem readLine_snoc (ps : List (Piece J)) (p : Piece J) :
    [readLine (ps ++ [p])].reduceOption.Sublist (if ps = [] then [p.entry] else []) := by
  cases h : readLine (ps ++ [p]) with
  | none => exact List.nil_sublist _
  | some x =>
      have hx := readLine_eq_some h
      rw [List.map_append] at hx
      obtain ⟨hnil, hp⟩ := List.append_eq_singleton_iff.mp hx |>.resolve_right (by simp)
      obtain rfl := List.map_eq_nil_iff.mp hnil
      obtain rfl : p.entry = x := List.singleton_inj.mp hp
      exact List.Sublist.refl _

/-- A write adds its entry to the file, or nothing. -/
theorem entries_write_sublist : (sh.write hJ e n).entries.Sublist (sh.entries ++ [e]) := by
  -- the last line, once the piece `p` is on it
  have hlast : ∀ p : Piece J, p.entry = e → ((sh.lines.map readLine).reduceOption ++
      [readLine (sh.tail ++ [p])].reduceOption).Sublist (sh.entries ++ [e]) := by
    rintro p rfl
    refine ((List.Sublist.refl _).append (readLine_snoc sh.tail p)).trans ?_
    by_cases htail : sh.tail = []
    · simp [entries, reads, htail]
    · simp [entries, reads, htail, List.reduceOption_append]
  unfold write
  split
  · exact List.sublist_append_left _ _
  · split
    · simpa [entries, reads, List.reduceOption_append] using hlast (Piece.cut hJ e n _) rfl
    · simpa [entries, reads, List.reduceOption_append] using hlast (Piece.whole hJ e) rfl

/-- Right after a newline, a write leaves a clean file clean, with one entry more once the whole
of the line but its newline is written. -/
theorem Clean.write {sh : FileShape J} (h : sh.Clean) (htail : sh.tail = []) :
    (sh.write hJ e n).Clean ∧ (sh.write hJ e n).entries =
      sh.entries ++ if byteLen (J.toString e) ≤ n then [e] else [] := by
  have hpos : byteLen (J.toString e) ≠ 0 := Nat.pos_iff_ne_zero.mp (hJ.byteLen_pos e)
  have hlen : (utf8 (J.toString e)).length = byteLen (J.toString e) := length_utf8 _
  unfold FileShape.write
  split
  · rename_i hn
    exact ⟨h, by simp [hn, hpos]⟩
  · rename_i hn₀
    split
    · rename_i hn
      refine ⟨⟨h.lines, by simp [htail]⟩, ?_⟩
      by_cases hfull : byteLen (J.toString e) ≤ n
      · have hwhole : (Piece.cut hJ e n hn₀).bytes = utf8 (J.toString e) :=
          List.take_of_length_le (hlen ▸ hfull)
        have hread : readLine [Piece.cut hJ e n hn₀] = some e := if_pos hwhole
        simp [entries, FileShape.reads, htail, hread, hfull, List.reduceOption_append,
          List.reduceOption_singleton]
      · have hwhole : (Piece.cut hJ e n hn₀).bytes ≠ utf8 (J.toString e) := fun he => by
          have := congrArg List.length he
          simp only [Piece.cut, List.length_take] at this
          omega
        have hread : readLine [Piece.cut hJ e n hn₀] = none := if_neg hwhole
        simp [entries, FileShape.reads, htail, hread, hfull, List.reduceOption_append,
          List.reduceOption_singleton]
    · rename_i hn
      have hread : readLine [Piece.whole hJ e] = some e := by
        simp [readLine, Piece.whole, Piece.IsWhole]
      refine ⟨⟨fun ps hps => ?_, by simp⟩, ?_⟩
      · simp only [htail, List.nil_append, List.mem_append, List.mem_singleton] at hps
        rcases hps with hps | rfl
        · exact h.lines ps hps
        · simp [hread]
      · have hle : byteLen (J.toString e) ≤ n := by omega
        simp [entries, FileShape.reads, htail, hread, hle, List.reduceOption_append,
          List.reduceOption_singleton]

/-- A file whose last byte is no newline, unless it has no bytes at all, has text after its last
newline. -/
theorem tail_eq_nil (hJ : J.Lawful) {sh : FileShape J}
    (h : sh.bytes = [] ∨ sh.bytes.getLast? = some 10) :
    sh.tail = [] := by
  by_contra htail
  have hne := lineOf_ne_nil htail
  rcases h with h | h
  · exact hne (List.append_eq_nil_iff.mp h).2
  · obtain ⟨b, hb⟩ := Option.ne_none_iff_exists'.mp (mt List.getLast?_eq_none_iff.mp hne)
    rw [bytes, List.getLast?_append, hb] at h
    cases h
    obtain ⟨p, -, hp⟩ := List.mem_flatMap.mp (List.mem_of_getLast? hb)
    refine not_mem_utf8 (fun hn => ?_) (p.within.subset hp)
    exact absurd (hJ.no_control _ _ hn) (by decide)

end Write

end FileShape

end WavelogRelay.Queue
