import WavelogRelay.Wsjtx.Grammar

/-!
# WSJT-X — when the ADIF inspector panics

The scan of `adifField` carries its cursor from one declared length to the next slice.  A length
counts bytes and comes from the network, so it may end inside a multi-byte character, and the
next slice, of the value or of the text after it, then panics.

`Strays name s` says that a scan of `s` for `name` meets such a length.  It speaks of the text
alone: which tags it holds, what their headers declare, and where its characters end.

* `adifLoop_panics_iff`: the scan panics exactly on the texts that stray.  The invariant is that
  the cursor is a boundary as long as no length strayed, so every slice but the value's is cut at
  one (`adifStep_tag`).
* `receive_returns_iff`: the listener's receive branch returns exactly when the ADIF text of the
  datagram, if it is a Logged-ADIF message, strays for none of the three tags looked up.
* `receive_panics`: `<CALL:1>é` strays.
-/

namespace WavelogRelay.Wsjtx
open Library

/-- The tag of a header and the length it declares, if it declares one. -/
def declares (hdr : Text) : Option (Text × Nat) :=
  match hdr.splitOn ':' with
  | tag :: lenStr :: _ => (parseUnsigned usizeMax lenStr).map (tag, ·)
  | _ => none

/-- A scan of a text for `name` meets a declared length that ends inside a character: at the
text's first tag, or, when the scan goes on past that tag, later. -/
inductive Strays (name : Text) : Text → Prop where
  | cut {pre hdr val tag : Text} {len : Nat} (hpre : '<' ∉ pre) (hhdr : '>' ∉ hdr)
      (hd : declares hdr = some (tag, len)) (hle : len ≤ byteLen val)
      (hcut : ¬ IsBoundary val len) : Strays name (pre ++ '<' :: (hdr ++ '>' :: val))
  | skip {pre hdr val : Text} (hpre : '<' ∉ pre) (hhdr : '>' ∉ hdr) (hd : declares hdr = none)
      (h : Strays name val) : Strays name (pre ++ '<' :: (hdr ++ '>' :: val))
  | field {pre hdr v rest tag : Text} (hpre : '<' ∉ pre) (hhdr : '>' ∉ hdr)
      (hd : declares hdr = some (tag, byteLen v)) (hne : eqIgnoreAsciiCase tag name = false)
      (h : Strays name rest) : Strays name (pre ++ '<' :: (hdr ++ '>' :: (v ++ rest)))

/-! ### One iteration -/

theorem adifStep_no_tag {gone s name : Text} (h : '<' ∉ s) :
    adifStep (gone ++ s) name (byteLen gone) = some (.done none) := by
  simp only [adifStep, slice_to_end, findChar_eq_none_iff.mpr h, Option.bind_eq_bind,
    Option.bind_some, Option.pure_def]

theorem slice_after_lt (gone pre t : Text) :
    slice (gone ++ (pre ++ '<' :: t)) (byteLen gone + byteLen pre + 1)
      (byteLen (gone ++ (pre ++ '<' :: t))) = some t := by
  have h := slice_to_end (gone ++ pre ++ ['<']) t
  have hlt : '<'.utf8Size = 1 := by decide
  simpa [hlt, Nat.add_assoc] using h

theorem adifStep_unclosed {gone pre t name : Text} (hpre : '<' ∉ pre) (ht : '>' ∉ t) :
    adifStep (gone ++ (pre ++ '<' :: t)) name (byteLen gone) = some (.done none) := by
  simp only [adifStep, slice_to_end, findChar_append t hpre, slice_after_lt,
    findChar_eq_none_iff.mpr ht, Option.bind_eq_bind, Option.bind_some, Option.pure_def]

/-! A tag `<hdr>` after `gone` and `pre`, and its value in what follows. -/

theorem byteLen_tag (gone pre hdr : Text) :
    byteLen (gone ++ (pre ++ '<' :: (hdr ++ ['>']))) =
      byteLen gone + byteLen pre + 1 + byteLen hdr + 1 := by
  have hlt : '<'.utf8Size = 1 := by decide
  have hgt : '>'.utf8Size = 1 := by decide
  simp only [byteLen_append, byteLen_cons, byteLen_nil, hlt, hgt]
  omega

theorem byteLen_tag_value (gone pre hdr val : Text) :
    byteLen (gone ++ (pre ++ '<' :: (hdr ++ '>' :: val))) =
      byteLen gone + byteLen pre + 1 + byteLen hdr + 1 + byteLen val := by
  have hlt : '<'.utf8Size = 1 := by decide
  have hgt : '>'.utf8Size = 1 := by decide
  simp only [byteLen_append, byteLen_cons, hlt, hgt]
  omega

theorem slice_header (gone pre hdr val : Text) :
    slice (gone ++ (pre ++ '<' :: (hdr ++ '>' :: val)))
      (byteLen gone + byteLen pre + 1) (byteLen gone + byteLen pre + 1 + byteLen hdr) =
        some hdr := by
  have hlt : '<'.utf8Size = 1 := by decide
  refine slice_eq_some_iff.mpr ⟨gone ++ pre ++ ['<'], '>' :: val, by simp, ?_, ?_⟩
  · simp [hlt]
    omega
  · simp [hlt]
    omega

theorem slice_value (gone pre hdr val : Text) (len : Nat) :
    slice (gone ++ (pre ++ '<' :: (hdr ++ '>' :: val)))
      (byteLen gone + byteLen pre + 1 + byteLen hdr + 1)
      (byteLen gone + byteLen pre + 1 + byteLen hdr + 1 + len) = takeBytes len val := by
  have h := slice_add (gone ++ (pre ++ '<' :: (hdr ++ ['>']))) val len
  rw [byteLen_tag] at h
  simpa using h

/-- **An iteration at a tag.**  The cursor is a boundary; every slice but the value's is cut at
one. -/
theorem adifStep_tag {gone pre hdr val : Text} (name : Text) (hpre : '<' ∉ pre) (hhdr : '>' ∉ hdr)
    (hlen : byteLen (gone ++ (pre ++ '<' :: (hdr ++ '>' :: val))) ≤ usizeMax) :
    adifStep (gone ++ (pre ++ '<' :: (hdr ++ '>' :: val))) name (byteLen gone) =
      let start := byteLen (gone ++ (pre ++ '<' :: (hdr ++ ['>'])))
      match declares hdr with
      | none => some (.next start)
      | some (tag, len) =>
          if byteLen val < len then some (.done none)
          else if eqIgnoreAsciiCase tag name then (takeBytes len val).map fun v => .done (some v)
          else some (.next (start + len)) := by
  simp only [adifStep, slice_to_end, findChar_append _ hpre, slice_after_lt,
    findChar_append val hhdr, slice_header, Option.bind_eq_bind, Option.bind_some, Option.pure_def,
    byteLen_tag, declares]
  rcases hdr.splitOn ':' with _ | ⟨tag, _ | ⟨lenStr, _⟩⟩
  · rfl
  · rfl
  · cases hp : parseUnsigned usizeMax lenStr with
    | none => simp only [hp, Option.map_none]
    | some len =>
        simp only [hp, Option.map_some, byteLen_tag_value] at hlen ⊢
        by_cases hfit : byteLen val < len
        · rw [if_pos hfit]
          cases hadd : checkedAdd (byteLen gone + byteLen pre + 1 + byteLen hdr + 1) len with
          | none => rfl
          | some stop =>
              have hstop := (checkedAdd_eq_some_iff.mp hadd).2
              simp only []
              rw [if_pos (by omega)]
        · have hadd := checkedAdd_eq_some_iff.mpr
            ⟨show byteLen gone + byteLen pre + 1 + byteLen hdr + 1 + len ≤ usizeMax by omega, rfl⟩
          simp only [hadd, if_neg hfit, gt_iff_lt]
          rw [if_neg (by omega)]
          split
          · rw [slice_value]
            cases takeBytes len val <;> rfl
          · rfl

/-- A cursor inside a character: the first slice panics. -/
theorem adifStep_stray {adif name : Text} {cursor : Nat} (h : ¬ IsBoundary adif cursor) :
    adifStep adif name cursor = none := by
  have hnone : slice adif cursor (byteLen adif) = none := by
    rw [← Option.not_isSome_iff_eq_none, slice_isSome_iff]
    exact fun hs => h hs.2.2.1
  simp [adifStep, hnone]

/-! ### The whole scan -/

section Loop

variable {adif name : Text} {cursor : Nat}

theorem adifLoop_panic (h : adifStep adif name cursor = none) :
    adifLoop adif name cursor = none := by
  rw [adifLoop]
  split <;> simp_all

theorem adifLoop_done {value : Option Text} (h : adifStep adif name cursor = some (.done value)) :
    adifLoop adif name cursor = some value := by
  rw [adifLoop]
  split <;> simp_all

theorem adifLoop_next {next : Nat} (h : adifStep adif name cursor = some (.next next)) :
    adifLoop adif name cursor = adifLoop adif name next := by
  rw [adifLoop]
  split <;> simp_all

end Loop

/-- How the scan of a text begins: no tag, a tag that is not closed, or a tag. -/
theorem tag_cases (s : Text) :
    '<' ∉ s ∨ (∃ pre t, s = pre ++ '<' :: t ∧ '<' ∉ pre ∧ '>' ∉ t) ∨
      ∃ pre hdr val, s = pre ++ '<' :: (hdr ++ '>' :: val) ∧ '<' ∉ pre ∧ '>' ∉ hdr := by
  cases h : findChar '<' s with
  | none => exact .inl (findChar_eq_none_iff.mp h)
  | some n =>
      obtain ⟨pre, t, rfl, hpre, -⟩ := findChar_eq_some h
      cases h' : findChar '>' t with
      | none => exact .inr (.inl ⟨pre, t, rfl, hpre, findChar_eq_none_iff.mp h'⟩)
      | some m =>
          obtain ⟨hdr, val, rfl, hhdr, -⟩ := findChar_eq_some h'
          exact .inr (.inr ⟨pre, hdr, val, rfl, hpre, hhdr⟩)

/-- A text that strays has a tag. -/
theorem Strays.tag {name s : Text} (h : Strays name s) :
    ∃ pre hdr val, s = pre ++ '<' :: (hdr ++ '>' :: val) ∧ '<' ∉ pre ∧ '>' ∉ hdr := by
  cases h with
  | cut hpre hhdr => exact ⟨_, _, _, rfl, hpre, hhdr⟩
  | skip hpre hhdr => exact ⟨_, _, _, rfl, hpre, hhdr⟩
  | field hpre hhdr => exact ⟨_, _, _, rfl, hpre, hhdr⟩

/-- A text's first tag is unique. -/
theorem tag_unique {pre hdr val pre' hdr' val' : Text} (hpre : '<' ∉ pre) (hhdr : '>' ∉ hdr)
    (hpre' : '<' ∉ pre') (hhdr' : '>' ∉ hdr')
    (h : pre ++ '<' :: (hdr ++ '>' :: val) = pre' ++ '<' :: (hdr' ++ '>' :: val')) :
    pre = pre' ∧ hdr = hdr' ∧ val = val' := by
  obtain ⟨rfl, ht⟩ := split_at_unique hpre hpre' h
  obtain ⟨rfl, rfl⟩ := split_at_unique hhdr hhdr' ht
  exact ⟨rfl, rfl, rfl⟩

/-- Whether a text strays, read off its first tag. -/
theorem strays_tag_iff {name pre hdr val : Text} (hpre : '<' ∉ pre) (hhdr : '>' ∉ hdr) :
    Strays name (pre ++ '<' :: (hdr ++ '>' :: val)) ↔
      match declares hdr with
      | none => Strays name val
      | some (tag, len) => len ≤ byteLen val ∧ (¬ IsBoundary val len ∨
          eqIgnoreAsciiCase tag name = false ∧
            ∃ v rest, val = v ++ rest ∧ byteLen v = len ∧ Strays name rest) := by
  constructor
  · intro h
    generalize e : pre ++ '<' :: (hdr ++ '>' :: val) = s at h
    cases h with
    | cut hpre' hhdr' hd hle hcut =>
        obtain ⟨rfl, rfl, rfl⟩ := tag_unique hpre hhdr hpre' hhdr' e
        rw [hd]
        exact ⟨hle, .inl hcut⟩
    | skip hpre' hhdr' hd h =>
        obtain ⟨rfl, rfl, rfl⟩ := tag_unique hpre hhdr hpre' hhdr' e
        rw [hd]
        exact h
    | field hpre' hhdr' hd hne h =>
        obtain ⟨rfl, rfl, rfl⟩ := tag_unique hpre hhdr hpre' hhdr' e
        rw [hd]
        exact ⟨by simp, .inr ⟨hne, _, _, rfl, rfl, h⟩⟩
  · intro h
    cases hd : declares hdr with
    | none => rw [hd] at h; exact .skip hpre hhdr hd h
    | some d =>
        obtain ⟨tag, len⟩ := d
        rw [hd] at h
        obtain ⟨hle, hcut | ⟨hne, v, rest, rfl, rfl, h⟩⟩ := h
        · exact .cut hpre hhdr hd hle hcut
        · exact .field hpre hhdr hd hne h

/-- A length that ends inside a character of the value, or of the text after it. -/
theorem adifLoop_cut {gone pre hdr val tag : Text} {len : Nat} (name : Text) (hpre : '<' ∉ pre)
    (hhdr : '>' ∉ hdr) (hd : declares hdr = some (tag, len))
    (hlen : byteLen (gone ++ (pre ++ '<' :: (hdr ++ '>' :: val))) ≤ usizeMax)
    (hle : len ≤ byteLen val) (hb : ¬ IsBoundary val len) :
    adifLoop (gone ++ (pre ++ '<' :: (hdr ++ '>' :: val))) name (byteLen gone) = none := by
  have hstep := adifStep_tag name hpre hhdr hlen
  rw [hd] at hstep
  simp only at hstep
  rw [if_neg (Nat.not_lt.mpr hle)] at hstep
  cases htag : eqIgnoreAsciiCase tag name with
  | true =>
      have hnone : takeBytes len val = none := by
        rw [← Option.not_isSome_iff_eq_none, takeBytes_isSome_iff]
        exact hb
      rw [if_pos htag, hnone] at hstep
      exact adifLoop_panic hstep
  | false =>
      rw [if_neg (by simp [htag])] at hstep
      rw [adifLoop_next hstep]
      have hsplit : gone ++ (pre ++ '<' :: (hdr ++ '>' :: val)) =
          (gone ++ (pre ++ '<' :: (hdr ++ ['>']))) ++ val := by simp
      have hcut : ¬ IsBoundary (gone ++ (pre ++ '<' :: (hdr ++ '>' :: val)))
          (byteLen (gone ++ (pre ++ '<' :: (hdr ++ ['>']))) + len) := by
        rw [hsplit, isBoundary_append_iff]
        exact hb
      exact adifLoop_panic (adifStep_stray hcut)

/-- **The scan panics exactly on the texts that stray.**  By induction on the text after the
cursor, which is a boundary. -/
theorem adifLoop_panics_iff {name : Text} (s gone : Text)
    (hlen : byteLen (gone ++ s) ≤ usizeMax) :
    adifLoop (gone ++ s) name (byteLen gone) = none ↔ Strays name s := by
  rcases tag_cases s with hs | ⟨pre, t, rfl, hpre, ht⟩ | ⟨pre, hdr, val, rfl, hpre, hhdr⟩
  · have hno : ¬ Strays name s := fun h => by
      obtain ⟨pre, hdr, val, rfl, -, -⟩ := h.tag
      simp at hs
    simp [adifLoop_done (adifStep_no_tag hs), hno]
  · have hno : ¬ Strays name (pre ++ '<' :: t) := fun h => by
      obtain ⟨pre', hdr, val, e, hpre', -⟩ := h.tag
      obtain ⟨rfl, rfl⟩ := split_at_unique hpre hpre' e
      simp at ht
    simp [adifLoop_done (adifStep_unclosed hpre ht), hno]
  · rw [strays_tag_iff hpre hhdr]
    have hstep := adifStep_tag name hpre hhdr hlen
    have hsplit : gone ++ (pre ++ '<' :: (hdr ++ '>' :: val)) =
        (gone ++ (pre ++ '<' :: (hdr ++ ['>']))) ++ val := by simp
    cases hd : declares hdr with
    | none =>
        -- a sentinel, or a length that does not parse: on after the header
        rw [hd] at hstep
        rw [adifLoop_next hstep]
        rw [hsplit] at hlen ⊢
        exact adifLoop_panics_iff val _ hlen
    | some d =>
        obtain ⟨tag, len⟩ := d
        rw [hd] at hstep
        simp only at hstep ⊢
        by_cases hfit : byteLen val < len
        · rw [if_pos hfit] at hstep
          have : ¬ len ≤ byteLen val := by omega
          simp [adifLoop_done hstep, this]
        rw [if_neg hfit] at hstep
        have hle : len ≤ byteLen val := by omega
        by_cases hb : IsBoundary val len
        · obtain ⟨v, rest, rfl, rfl⟩ := hb
          have hv : IsBoundary (v ++ rest) (byteLen v) := ⟨v, rest, rfl, rfl⟩
          cases htag : eqIgnoreAsciiCase tag name with
          | true =>
              -- the field looked up, cut at a boundary
              rw [if_pos htag, takeBytes_append] at hstep
              simp [adifLoop_done hstep, hv]
          | false =>
              rw [if_neg (by simp [htag])] at hstep
              rw [adifLoop_next hstep]
              have hsplit' : (gone ++ (pre ++ '<' :: (hdr ++ ['>']))) ++ (v ++ rest) =
                  (gone ++ (pre ++ '<' :: (hdr ++ ['>'])) ++ v) ++ rest := by simp
              rw [hsplit, hsplit'] at hlen ⊢
              rw [← byteLen_append, adifLoop_panics_iff rest _ hlen]
              constructor
              · exact fun h => ⟨hle, .inr ⟨rfl, v, rest, rfl, rfl, h⟩⟩
              · rintro ⟨-, h | ⟨-, v', rest', e, hl, h⟩⟩
                · exact absurd hv h
                · obtain ⟨rfl, rfl⟩ := append_inj_of_byteLen e hl.symm
                  exact h
        · simp only [hle, hb, not_false_eq_true, true_or, and_self, iff_true]
          exact adifLoop_cut name hpre hhdr hd hlen hle hb
termination_by s.length
decreasing_by
  all_goals subst_vars; simp only [List.length_append, List.length_cons]; omega

/-! ### The receive branch -/

/-- A text as a Rust `str` holds it: no longer than `isize::MAX` bytes. -/
structure RustStr where
  text : Text
  len_le : byteLen text ≤ usizeMax / 2

theorem adifField_panics_iff {adif name : Text} (h : byteLen adif ≤ usizeMax) :
    adifField adif name = none ↔ Strays name adif :=
  adifLoop_panics_iff adif [] h

/-- The tags the listener looks up. -/
def lookedUp : List Text := ["CALL".toList, "MODE".toList, "BAND".toList]

theorem summarizeAdif_panics_iff {adif : Text} (h : byteLen adif ≤ usizeMax) :
    summarizeAdif adif = none ↔ ∃ name ∈ lookedUp, Strays name adif := by
  simp only [lookedUp, List.mem_cons, List.not_mem_nil, or_false, exists_eq_or_imp,
    exists_eq_left, ← adifField_panics_iff h, summarizeAdif, Option.bind_eq_bind]
  cases adifField adif "CALL".toList <;> cases adifField adif "MODE".toList <;>
    cases adifField adif "BAND".toList <;> simp

theorem LoggedAdif.byteLen_le {b : Bytes} {adif : Text} (h : LoggedAdif b adif) :
    byteLen adif ≤ b.length := by
  obtain ⟨_, q₁, q₂, rest, _, _, hq, rfl⟩ := h
  cases hq with
  | null => simp
  | text => simp; omega

theorem Datagram.len_le_usizeMax (d : Datagram) : d.bytes.length ≤ usizeMax :=
  Nat.le_trans d.len_le (by decide)

theorem receive_of {d : Datagram} {adif : Text} (h : parseLoggedAdif d.bytes = pure (some adif)) :
    (receive d).run = none ↔ summarizeAdif adif = none := by
  rw [receive, h, pure_bind]
  simp only []
  cases hs : summarizeAdif adif with
  | none => exact ⟨fun _ => rfl, fun _ => rfl⟩
  | some summary => exact ⟨fun h => (by cases h), fun h => (by cases h)⟩

/-- **The receive branch returns without a panic exactly when no declared length that it follows
ends inside a character**: for every datagram, and for every text and tag name looked up. -/
theorem receive_returns_iff (d : Datagram) (text : RustStr) (name : Text) :
    ((receive d).run ≠ none ↔
      ∀ adif, LoggedAdif d.bytes adif → ∀ name ∈ lookedUp, ¬ Strays name adif) ∧
    (adifField text.text name ≠ none ↔ ¬ Strays name text.text) := by
  refine ⟨?_, ?_⟩
  · have hb := d.len_le_usizeMax
    rcases parseLoggedAdif_returns d.bytes with ⟨adif, h, hl⟩ | ⟨h, -⟩ | ⟨e, -, h⟩
    · have hlen := Nat.le_trans hl.byteLen_le hb
      have hsum := summarizeAdif_panics_iff hlen
      have hone : ∀ adif', LoggedAdif d.bytes adif' → adif' = adif := fun adif' hl' => by
        rw [parseLoggedAdif_of hl'] at h
        cases h
        rfl
      rw [ne_eq, receive_of h, hsum]
      constructor
      · intro hr adif' hl' name hname hstray
        exact hr ⟨name, hname, hone adif' hl' ▸ hstray⟩
      · rintro hr ⟨name, hname, hstray⟩
        exact hr adif hl name hname hstray
    · have hno : ∀ adif, ¬ LoggedAdif d.bytes adif := fun adif hl => by
        rw [parseLoggedAdif_of hl] at h
        cases h
      rw [receive, h]
      exact ⟨fun _ adif hl => absurd hl (hno adif), fun _ hr => by cases hr⟩
    · have hno : ∀ adif, ¬ LoggedAdif d.bytes adif := fun adif hl => by
        rw [parseLoggedAdif_of hl] at h
        cases h
      rw [receive, h]
      exact ⟨fun _ adif hl => absurd hl (hno adif), fun _ hr => by cases hr⟩
  · rw [ne_eq, adifField_panics_iff (Nat.le_trans text.len_le (by decide))]

/-- A Logged-ADIF message from `WSJT-X` whose text is `<CALL:1>é`. -/
def strayDatagram : Datagram where
  bytes := toBeBytes magic ++ toBeBytes 3 ++ toBeBytes msgTypeLoggedAdif ++
    toBeBytes 6 ++ utf8 "WSJT-X".toList ++ toBeBytes 10 ++ utf8 "<CALL:1>é".toList
  len_le := by decide

/-- **The receive branch panics** on a declared length that ends inside a character. -/
theorem receive_panics : ¬ ∀ d : Datagram, (receive d).run ≠ none :=
  fun h => h strayDatagram (by decide +kernel)

end WavelogRelay.Wsjtx
