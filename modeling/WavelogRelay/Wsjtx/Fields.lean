import WavelogRelay.Wsjtx.Adif

/-!
# WSJT-X — ADIF fields of well-formed records

A well-formed record is a list of items: fields, whose tags declare the byte length of the value
that follows, sentinel tags, and filler between them.  `render` is its text.  A value is any text,
also one that looks like tags.

* `adifStep_render`: an iteration that starts between two items either ends the scan with the
  answer or goes on between two later ones, with the same answer still to be found.
* `adifField_render`: the scan returns the value of the first field of the name looked up, and
  every cursor on its way lies between two items, so no tag is read out of a value.
* `summarizeAdif_render`: the three fields of the log line.
-/

namespace WavelogRelay.Wsjtx
open Library

/-! ### Records -/

/-- The name of a tag, or the type of a field: it holds none of the three delimiters. -/
structure Label where
  text : Text
  no_lt : '<' ∉ text
  no_gt : '>' ∉ text
  no_colon : ':' ∉ text

/-- Text between the items of a record. -/
structure Filler where
  text : Text
  no_lt : '<' ∉ text

/-- An item of a record. -/
inductive Item where
  | field (tag : Label) (value : Text) (type : Option Label)
  | sentinel (tag : Label)
  | filler (fill : Filler)

/-- The header of a field: `NAME:len`, or `NAME:len:type`. -/
def fieldHeader (tag : Label) (value : Text) : Option Label → Text
  | none => tag.text ++ ':' :: decimal (byteLen value)
  | some type => tag.text ++ ':' :: (decimal (byteLen value) ++ ':' :: type.text)

def Item.render : Item → Text
  | .field tag value type => '<' :: (fieldHeader tag value type ++ '>' :: value)
  | .sentinel tag => '<' :: (tag.text ++ ['>'])
  | .filler fill => fill.text

/-- The text of a record. -/
def render : List Item → Text
  | [] => []
  | item :: items => item.render ++ render items

/-- The value of the first field whose name is `name` up to ASCII case. -/
def lookup (name : Text) : List Item → Option Text
  | .field tag value _ :: items =>
      if eqIgnoreAsciiCase tag.text name then some value else lookup name items
  | .sentinel _ :: items | .filler _ :: items => lookup name items
  | [] => none

theorem render_append (items more : List Item) :
    render (items ++ more) = render items ++ render more := by
  induction items with
  | nil => rfl
  | cons item items ih => simp [render, ih]

/-! ### Headers -/

theorem fieldHeader_no_gt (tag : Label) (value : Text) (type : Option Label) :
    '>' ∉ fieldHeader tag value type := by
  have hlen := not_mem_decimal (c := '>') (by decide) (byteLen value)
  cases type with
  | none => simp [fieldHeader, tag.no_gt, hlen]
  | some type => simp [fieldHeader, tag.no_gt, hlen, type.no_gt]

/-- The header of a field declares its name and the length of its value. -/
theorem declares_fieldHeader (tag : Label) {value : Text} (type : Option Label)
    (hlen : byteLen value ≤ usizeMax) :
    declares (fieldHeader tag value type) = some (tag.text, byteLen value) := by
  have hparse := parseUnsigned_decimal hlen
  have hcolon := not_mem_decimal (c := ':') (by decide) (byteLen value)
  cases type with
  | none =>
      rw [declares, fieldHeader, List.splitOn_append_cons_self_of_not_mem tag.no_colon,
        List.splitOn_eq_singleton hcolon]
      simp [hparse]
  | some type =>
      rw [declares, fieldHeader, List.splitOn_append_cons_self_of_not_mem tag.no_colon,
        List.splitOn_append_cons_self_of_not_mem hcolon]
      simp [hparse]

/-- A sentinel declares nothing. -/
theorem declares_label (tag : Label) : declares tag.text = none := by
  rw [declares, List.splitOn_eq_singleton tag.no_colon]

/-! ### The scan between items -/

/-- The cursors that the scan of a text for `name` stops at. -/
inductive Visits (adif name : Text) : Nat → Prop where
  | start : Visits adif name 0
  | next {cursor cursor' : Nat} (h : Visits adif name cursor)
      (hs : adifStep adif name cursor = some (.next cursor')) : Visits adif name cursor'

/-- **An iteration that starts between two items**, with filler `pre` before the next: it ends
the scan with the answer, or goes on past the next tag's item with the answer still to be
found. -/
theorem adifStep_render (name : Text) : ∀ (items : List Item) (gone pre : Text), '<' ∉ pre →
    byteLen (gone ++ (pre ++ render items)) ≤ usizeMax →
    adifStep (gone ++ (pre ++ render items)) name (byteLen gone) =
        some (.done (lookup name items)) ∨
      ∃ before after, items = before ++ after ∧ before ≠ [] ∧
        lookup name items = lookup name after ∧
        adifStep (gone ++ (pre ++ render items)) name (byteLen gone) =
          some (.next (byteLen (gone ++ (pre ++ render before))))
  | [], gone, pre, hpre, _ => by
      left
      have hnone : adifStep (gone ++ pre) name (byteLen gone) = some (.done none) :=
        adifStep_no_tag hpre
      simpa [render, lookup] using hnone
  | .filler fill :: items, gone, pre, hpre, hlen => by
      have hpre' : '<' ∉ pre ++ fill.text := by simp [hpre, fill.no_lt]
      have htext : pre ++ render (.filler fill :: items) =
          (pre ++ fill.text) ++ render items := by simp [render, Item.render]
      rw [htext] at hlen ⊢
      rcases adifStep_render name items gone _ hpre' hlen with h | ⟨before, after, rfl, -, hl, h⟩
      · exact .inl h
      · refine .inr ⟨.filler fill :: before, after, rfl, by simp, hl, ?_⟩
        rw [h]
        simp [render, Item.render]
  | .sentinel tag :: items, gone, pre, hpre, hlen => by
      have htext : pre ++ render (.sentinel tag :: items) =
          pre ++ '<' :: (tag.text ++ '>' :: render items) := by simp [render, Item.render]
      rw [htext] at hlen ⊢
      have hstep := adifStep_tag name hpre tag.no_gt hlen
      rw [declares_label] at hstep
      refine .inr ⟨[.sentinel tag], items, rfl, by simp, rfl, ?_⟩
      rw [hstep]
      simp [render, Item.render]
  | .field tag value type :: items, gone, pre, hpre, hlen => by
      have htext : pre ++ render (.field tag value type :: items) =
          pre ++ '<' :: (fieldHeader tag value type ++ '>' :: (value ++ render items)) := by
        simp [render, Item.render]
      rw [htext] at hlen ⊢
      have hvalue : byteLen value ≤ usizeMax := by
        simp only [byteLen_append, byteLen_cons] at hlen
        omega
      have hfits : ¬ byteLen (value ++ render items) < byteLen value := by simp
      have hstep := adifStep_tag name hpre (fieldHeader_no_gt tag value type) hlen
      rw [declares_fieldHeader tag type hvalue] at hstep
      simp only at hstep
      rw [if_neg hfits, takeBytes_append] at hstep
      cases htag : eqIgnoreAsciiCase tag.text name with
      | true =>
          left
          rw [if_pos htag] at hstep
          simp [hstep, lookup, htag]
      | false =>
          rw [if_neg (by simp [htag])] at hstep
          refine .inr ⟨[.field tag value type], items, rfl, by simp, by simp [lookup, htag], ?_⟩
          rw [hstep]
          simp [render, Item.render, Nat.add_assoc]

/-- An iteration between two items, without filler. -/
theorem adifStep_between (name : Text) (gone : Text) (items : List Item)
    (hlen : byteLen (gone ++ render items) ≤ usizeMax) :
    adifStep (gone ++ render items) name (byteLen gone) = some (.done (lookup name items)) ∨
      ∃ before after, items = before ++ after ∧ before ≠ [] ∧
        lookup name items = lookup name after ∧
        adifStep (gone ++ render items) name (byteLen gone) =
          some (.next (byteLen (gone ++ render before))) :=
  adifStep_render name items gone [] (by simp) hlen

/-- The scan from between two items finds the first field of the rest. -/
theorem adifLoop_render (name : Text) (gone : Text) (items : List Item)
    (hlen : byteLen (gone ++ render items) ≤ usizeMax) :
    adifLoop (gone ++ render items) name (byteLen gone) = some (lookup name items) := by
  rcases adifStep_between name gone items hlen with h | ⟨before, after, rfl, hne, hl, h⟩
  · exact adifLoop_done h
  · have hlen' : after.length < (before ++ after).length := by
      have := List.length_pos_iff.mpr hne
      rw [List.length_append]
      omega
    rw [adifLoop_next h, hl]
    rw [render_append, ← List.append_assoc] at hlen ⊢
    exact adifLoop_render name _ after hlen
termination_by items.length

/-- Every cursor of the scan lies between two items. -/
theorem Visits.between {name : Text} {items : List Item} (hlen : byteLen (render items) ≤ usizeMax)
    {cursor : Nat} (h : Visits (render items) name cursor) :
    ∃ before after, items = before ++ after ∧ cursor = byteLen (render before) := by
  induction h with
  | start => exact ⟨[], items, rfl, rfl⟩
  | next _ hs ih =>
      obtain ⟨before, after, rfl, rfl⟩ := ih
      rw [render_append] at hlen hs
      rcases adifStep_between name (render before) after hlen with h | ⟨b, a, rfl, -, -, h⟩
      · rw [h] at hs
        cases hs
      · rw [h] at hs
        cases hs
        exact ⟨before ++ b, a, by simp, by rw [render_append]⟩

/-- **ADIF lookup on well-formed records.**  The scan of a record's text for `name` ends, returns
the value of the first field of that name, and never stops inside an item. -/
theorem adifField_render (items : List Item) (name : Text)
    (hlen : byteLen (render items) < usizeMax) :
    adifField (render items) name = some (lookup name items) ∧
      ∀ cursor, Visits (render items) name cursor →
        ∃ before after, items = before ++ after ∧ cursor = byteLen (render before) :=
  ⟨adifLoop_render name [] items (by simp; omega), fun _ => Visits.between (by omega)⟩

/-- A record whose first value looks like the field that follows it. -/
def lookAlike : List Item :=
  [.filler ⟨"log> ".toList, by decide⟩,
    .sentinel ⟨"EOH".toList, by decide, by decide, by decide⟩,
    .field ⟨"COMMENT".toList, by decide, by decide, by decide⟩ "<CALL:2>é:".toList none,
    .field ⟨"call".toList, by decide, by decide, by decide⟩ "K1ABC".toList
      (some ⟨"S".toList, by decide, by decide, by decide⟩),
    .sentinel ⟨"EOR".toList, by decide, by decide, by decide⟩]

theorem adifField_lookAlike :
    adifField (render lookAlike) "CALL".toList = some (some "K1ABC".toList) :=
  (adifField_render lookAlike "CALL".toList (by decide)).1.trans (by decide)

/-- What the log line shows of a well-formed record. -/
theorem summarizeAdif_render (items : List Item) (hlen : byteLen (render items) ≤ usizeMax) :
    summarizeAdif (render items) = some
      { callsign := lookup "CALL".toList items
        mode := lookup "MODE".toList items
        band := lookup "BAND".toList items } := by
  have h : ∀ name, adifField (render items) name = some (lookup name items) := fun name =>
    adifLoop_render name [] items hlen
  simp [summarizeAdif, h]

end WavelogRelay.Wsjtx
