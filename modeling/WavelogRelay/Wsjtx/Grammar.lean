import WavelogRelay.Wsjtx.Protocol

/-!
# WSJT-X — which datagrams the decoder accepts

`QString q s`: the bytes `q` are a Qt string that denotes `s`.  `LoggedAdif b adif`: the bytes
`b` are a Logged-ADIF message whose second string denotes `adif`, with any bytes after it.
`OtherMessage b`: they are a header of another type.

* `decoder_exact`: the decoder returns `Ok(Some(adif))` on exactly the datagrams of `LoggedAdif`,
  `Ok(None)` on exactly those of `OtherMessage`, and fails on every other one; it never panics,
  and no offset overflows.  A packet of the test encoder is decoded to its text, and one cut
  short is an error.

Each reader of the cursor has two lemmas: what it returns when the rest of the buffer begins with
what it reads (`_of`), and that the rest begins so or the reader fails (`_cases`).  The cursor's
invariant counts the reads that are left: seven reads of less than 4 GiB do not reach the end of
`usize`.
-/

namespace WavelogRelay.Wsjtx
open Library

/-! ### Big-endian words -/

theorem fromBeBytes_toBeBytes (n : UInt32) :
    ∃ b₀ b₁ b₂ b₃, toBeBytes n = [b₀, b₁, b₂, b₃] ∧ fromBeBytes b₀ b₁ b₂ b₃ = n := by
  refine ⟨_, _, _, _, rfl, UInt32.toNat_inj.mp ?_⟩
  have := n.toNat_lt
  simp only [fromBeBytes, UInt32.toNat_ofNat', UInt8.toNat_ofNat']
  omega

theorem toBeBytes_fromBeBytes (b₀ b₁ b₂ b₃ : UInt8) :
    toBeBytes (fromBeBytes b₀ b₁ b₂ b₃) = [b₀, b₁, b₂, b₃] := by
  have h₀ := b₀.toNat_lt
  have h₁ := b₁.toNat_lt
  have h₂ := b₂.toNat_lt
  have h₃ := b₃.toNat_lt
  simp only [toBeBytes, fromBeBytes, UInt32.toNat_ofNat', List.cons.injEq, ← UInt8.toNat_inj,
    UInt8.toNat_ofNat', and_true]
  omega

theorem toBeBytes_injective {m n : UInt32} (h : toBeBytes m = toBeBytes n) : m = n := by
  obtain ⟨_, _, _, _, hm, rfl⟩ := fromBeBytes_toBeBytes m
  obtain ⟨_, _, _, _, hn, rfl⟩ := fromBeBytes_toBeBytes n
  rw [hm, hn] at h
  cases h
  rfl

@[simp] theorem length_toBeBytes (n : UInt32) : (toBeBytes n).length = 4 := rfl

/-! ### The grammar -/

/-- The bytes of a Qt string, and the text it denotes. -/
inductive QString : Bytes → Text → Prop where
  | null : QString (toBeBytes 0xffffffff) []
  | text (s : Text) (h : byteLen s < 0x80000000) :
      QString (toBeBytes (.ofNat (byteLen s)) ++ utf8 s) s

/-- A Logged-ADIF message whose ADIF text is `adif`. -/
def LoggedAdif (b : Bytes) (adif : Text) : Prop :=
  ∃ (schema : UInt32) (q₁ q₂ rest : Bytes) (id : Text), QString q₁ id ∧ QString q₂ adif ∧
    b = toBeBytes magic ++ toBeBytes schema ++ toBeBytes msgTypeLoggedAdif ++ q₁ ++ q₂ ++ rest

/-- A header whose message type is not 12. -/
def OtherMessage (b : Bytes) : Prop :=
  ∃ (schema ty : UInt32) (rest : Bytes), ty ≠ msgTypeLoggedAdif ∧
    b = toBeBytes magic ++ toBeBytes schema ++ toBeBytes ty ++ rest

/-- The errors of bytes that are no message. -/
inductive Malformed : WsjtxError → Prop where
  | badMagic (word : UInt32) : Malformed (.parse ("bad magic: 0x" ++ hex8 word))
  | truncated (n pos remaining : Nat) :
      Malformed (.parse s!"truncated: need {n} bytes at offset {pos}, have {remaining}")
  | badLength (len : Int) : Malformed (.parse s!"invalid QString length {len}")
  | notUtf8 : Malformed (.parse "invalid UTF-8 in QString field")

/-- None of them is the error of an offset that overflows. -/
theorem Malformed.ne_overflow {e : WsjtxError} (h : Malformed e) (pos : Nat) :
    e ≠ .parse s!"length overflow at offset {pos}" := by
  intro he
  cases h <;> simp [toString, String.ext_iff] at he

/-! ### The cursor -/

namespace Cursor

/-- The bytes not yet read. -/
def rest (c : Cursor) : Bytes := c.buf.drop c.pos

/-- The cursor is in its buffer, and `n` more reads do not overflow its offset. -/
def Ok (n : Nat) (c : Cursor) : Prop :=
  c.pos ≤ c.buf.length ∧ c.pos + n * 0x100000000 ≤ usizeMax

theorem Ok.new (b : Bytes) : (new b).Ok 7 :=
  ⟨Nat.zero_le _, show 0 + 7 * 0x100000000 ≤ usizeMax by decide⟩

theorem Ok.mono {c : Cursor} {m n : Nat} (h : c.Ok n) (hle : m ≤ n) : c.Ok m :=
  ⟨h.1, Nat.le_trans (Nat.add_le_add_left (Nat.mul_le_mul_right _ hle) _) h.2⟩

theorem length_rest (c : Cursor) : c.rest.length = c.buf.length - c.pos := by simp [rest]

theorem take_of {n : Nat} {c : Cursor} {bs r : Bytes} (hc : c.Ok (n + 1))
    (hbs : bs.length ≤ 0x100000000) (h : c.rest = bs ++ r) :
    ∃ c', c.take bs.length = pure (bs, c') ∧ c'.Ok n ∧ c'.rest = r := by
  have hlen : bs.length ≤ c.buf.length - c.pos := by
    rw [← length_rest, h, List.length_append]; omega
  obtain ⟨h₁, h₂⟩ := hc
  have hadd : checkedAdd c.pos bs.length = some (c.pos + bs.length) :=
    checkedAdd_eq_some_iff.mpr ⟨by omega, rfl⟩
  have hslice : byteSlice c.buf c.pos (c.pos + bs.length) = some bs := by
    rw [byteSlice, if_pos ⟨by omega, by omega⟩, Nat.add_sub_cancel_left]
    rw [rest] at h
    rw [h, List.take_left' rfl]
  refine ⟨{ c with pos := c.pos + bs.length }, ?_, ⟨?_, ?_⟩, ?_⟩
  · have hle : ¬ c.pos + bs.length > c.buf.length := by omega
    simp only [take, hadd, hslice, hle, if_false]
    rfl
  · show c.pos + bs.length ≤ c.buf.length
    omega
  · show c.pos + bs.length + n * 0x100000000 ≤ usizeMax
    omega
  · show c.buf.drop (c.pos + bs.length) = r
    rw [← List.drop_drop]
    rw [rest] at h
    rw [h, List.drop_left' rfl]

theorem take_cases {n : Nat} {c : Cursor} (hc : c.Ok (n + 1)) {m : Nat} (hm : m ≤ 0x100000000) :
    (∃ bs r, bs.length = m ∧ c.rest = bs ++ r) ∨ ∃ e, Malformed e ∧ c.take m = throw e := by
  by_cases h : m ≤ c.rest.length
  · exact .inl ⟨c.rest.take m, c.rest.drop m, by simp [h], by simp⟩
  · have hlen := length_rest c
    obtain ⟨h₁, h₂⟩ := hc
    have hadd : checkedAdd c.pos m = some (c.pos + m) :=
      checkedAdd_eq_some_iff.mpr ⟨by omega, rfl⟩
    have hgt : c.pos + m > c.buf.length := by omega
    refine .inr ⟨_, .truncated m c.pos (c.buf.length - c.pos), ?_⟩
    simp only [take, hadd, hgt, if_true]
    rfl

theorem readU32_of {n : Nat} {c : Cursor} {w : UInt32} {r : Bytes} (hc : c.Ok (n + 1))
    (h : c.rest = toBeBytes w ++ r) :
    ∃ c', c.readU32 = pure (w, c') ∧ c'.Ok n ∧ c'.rest = r := by
  obtain ⟨c', ht, hc', hr⟩ := take_of hc (by simp) h
  obtain ⟨b₀, b₁, b₂, b₃, e, hw⟩ := fromBeBytes_toBeBytes w
  refine ⟨c', ?_, hc', hr⟩
  rw [length_toBeBytes] at ht
  rw [readU32, ht, pure_bind]
  simp only [e, hw]

theorem readU32_cases {n : Nat} {c : Cursor} (hc : c.Ok (n + 1)) :
    (∃ w r, c.rest = toBeBytes w ++ r) ∨ ∃ e, Malformed e ∧ c.readU32 = throw e := by
  rcases take_cases hc (show 4 ≤ 0x100000000 by decide) with ⟨bs, r, hlen, h⟩ | ⟨e, he, ht⟩
  · match bs, hlen with
    | [b₀, b₁, b₂, b₃], _ =>
        exact .inl ⟨fromBeBytes b₀ b₁ b₂ b₃, r, by rw [toBeBytes_fromBeBytes, h]⟩
  · exact .inr ⟨e, he, by rw [readU32, ht]; rfl⟩

theorem readQstring_of {n : Nat} {c : Cursor} {q r : Bytes} {s : Text} (hc : c.Ok (n + 2))
    (hq : QString q s) (h : c.rest = q ++ r) :
    ∃ c', c.readQstring = pure (s, c') ∧ c'.Ok n ∧ c'.rest = r := by
  cases hq with
  | null =>
      obtain ⟨c', ht, hc', hr⟩ := readU32_of hc h
      refine ⟨c', ?_, hc'.mono (Nat.le_succ n), hr⟩
      rw [readQstring, ht, pure_bind]
      rfl
  | text s hs =>
      rw [List.append_assoc] at h
      obtain ⟨c₁, ht, hc₁, hr₁⟩ := readU32_of hc h
      obtain ⟨c₂, ht₂, hc₂, hr₂⟩ := take_of hc₁ (by rw [length_utf8]; omega) hr₁
      refine ⟨c₂, ?_, hc₂, hr₂⟩
      have hlen : asI32 (.ofNat (byteLen s)) = byteLen s := by
        rw [asI32, UInt32.toNat_ofNat', Nat.mod_eq_of_lt (by omega), if_pos hs]
      rw [length_utf8] at ht₂
      rw [readQstring, ht, pure_bind]
      have h₁ : ¬ ((byteLen s : Int) = -1) := by omega
      have h₂ : ¬ ((byteLen s : Int) < 0) := by omega
      simp only [hlen, h₁, h₂, if_false, Int.toNat_natCast, ht₂, pure_bind, fromUtf8_utf8]

theorem readQstring_cases {n : Nat} {c : Cursor} (hc : c.Ok (n + 2)) :
    (∃ q s r, QString q s ∧ c.rest = q ++ r) ∨ ∃ e, Malformed e ∧ c.readQstring = throw e := by
  rcases readU32_cases hc with ⟨w, r, h⟩ | ⟨e, he, ht⟩
  · obtain ⟨c', ht, hc', rfl⟩ := readU32_of hc h
    have hw := w.toNat_lt
    by_cases h₁ : w = 0xffffffff
    · exact .inl ⟨_, _, c'.rest, .null, h₁ ▸ h⟩
    have hne : ¬ asI32 w = -1 := fun e => h₁ <| UInt32.toNat_inj.mp <| by
      unfold asI32 at e
      have : (0xffffffff : UInt32).toNat = 0xffffffff := rfl
      split at e <;> omega
    by_cases h₂ : asI32 w < 0
    · refine .inr ⟨_, .badLength (asI32 w), ?_⟩
      rw [readQstring, ht, pure_bind]
      simp only [hne, h₂, if_false, if_true]
      rfl
    have hw' : asI32 w = w.toNat := by
      unfold asI32 at h₂ ⊢
      split <;> omega
    have hneg : ¬ ((w.toNat : Int) = -1) := by omega
    have hpos : ¬ ((w.toNat : Int) < 0) := by omega
    rcases take_cases hc' (m := w.toNat) (by omega) with ⟨bs, r, hlen, h'⟩ | ⟨e, he, ht'⟩
    · cases hu : fromUtf8 bs with
      | some s =>
          obtain rfl := fromUtf8_eq_some_iff.mp hu
          rw [length_utf8] at hlen
          refine .inl ⟨_, s, r, .text s ?_, ?_⟩
          · unfold asI32 at hw'
            split at hw' <;> omega
          · rw [h, h', hlen, UInt32.ofNat_toNat, List.append_assoc]
      | none =>
          obtain ⟨c₂, ht₂, -, -⟩ := take_of hc' (by omega) h'
          refine .inr ⟨_, .notUtf8, ?_⟩
          rw [hlen] at ht₂
          rw [readQstring, ht, pure_bind]
          simp only [hw', hneg, hpos, if_false, Int.toNat_natCast, ht₂, pure_bind, hu]
    · refine .inr ⟨e, he, ?_⟩
      rw [readQstring, ht, pure_bind]
      simp only [hw', hneg, hpos, if_false, Int.toNat_natCast, ht']
      rfl
  · exact .inr ⟨e, he, by rw [readQstring, ht]; rfl⟩

end Cursor

/-! ### The decoder -/

theorem parseLoggedAdif_of {b : Bytes} {adif : Text} (h : LoggedAdif b adif) :
    parseLoggedAdif b = pure (some adif) := by
  obtain ⟨schema, q₁, q₂, rest, id, hq₁, hq₂, hbytes⟩ := h
  have h₀ := Cursor.Ok.new b
  have r₀ : (Cursor.new b).rest = toBeBytes magic ++ (toBeBytes schema ++
      (toBeBytes msgTypeLoggedAdif ++ (q₁ ++ (q₂ ++ rest)))) := by
    simpa [Cursor.rest, Cursor.new] using hbytes
  obtain ⟨c₁, e₁, h₁, r₁⟩ := Cursor.readU32_of h₀ r₀
  obtain ⟨c₂, e₂, h₂, r₂⟩ := Cursor.readU32_of h₁ r₁
  obtain ⟨c₃, e₃, h₃, r₃⟩ := Cursor.readU32_of h₂ r₂
  obtain ⟨c₄, e₄, h₄, r₄⟩ := Cursor.readQstring_of h₃ hq₁ r₃
  obtain ⟨c₅, e₅, -, -⟩ := Cursor.readQstring_of h₄ hq₂ r₄
  simp [parseLoggedAdif, e₁, e₂, e₃, e₄, e₅]

theorem parseLoggedAdif_of_other {b : Bytes} (h : OtherMessage b) :
    parseLoggedAdif b = pure none := by
  obtain ⟨schema, ty, rest, hty, hbytes⟩ := h
  have h₀ := Cursor.Ok.new b
  have r₀ : (Cursor.new b).rest = toBeBytes magic ++ (toBeBytes schema ++
      (toBeBytes ty ++ rest)) := by
    simpa [Cursor.rest, Cursor.new] using hbytes
  obtain ⟨c₁, e₁, h₁, r₁⟩ := Cursor.readU32_of h₀ r₀
  obtain ⟨c₂, e₂, h₂, r₂⟩ := Cursor.readU32_of h₁ r₁
  obtain ⟨c₃, e₃, -, -⟩ := Cursor.readU32_of h₂ r₂
  simp [parseLoggedAdif, e₁, e₂, e₃, hty]

/-- **The decoder never panics**: it returns a text, `None` or an error, and each of the two
answers only on what it stands for. -/
theorem parseLoggedAdif_returns (b : Bytes) :
    (∃ adif, parseLoggedAdif b = pure (some adif) ∧ LoggedAdif b adif) ∨
      (parseLoggedAdif b = pure none ∧ OtherMessage b) ∨
      ∃ e, Malformed e ∧ parseLoggedAdif b = throw e := by
  have h₀ := Cursor.Ok.new b
  rcases Cursor.readU32_cases h₀ with ⟨w, r₁, r⟩ | ⟨e, hm, he⟩
  swap; · exact .inr (.inr ⟨e, hm, by rw [parseLoggedAdif]; simp only [he]; rfl⟩)
  have hbuf : b = toBeBytes w ++ r₁ := by simpa [Cursor.rest, Cursor.new] using r
  obtain ⟨c₁, e₁, h₁, rfl⟩ := Cursor.readU32_of h₀ r
  by_cases hw : w = magic
  swap; · exact .inr (.inr ⟨_, .badMagic w, by simp [parseLoggedAdif, e₁, hw]⟩)
  subst hw
  rcases Cursor.readU32_cases h₁ with ⟨schema, r₂, r⟩ | ⟨e, hm, he⟩
  swap; · exact .inr (.inr ⟨e, hm, by simp [parseLoggedAdif, e₁, he]⟩)
  obtain ⟨c₂, e₂, h₂, rfl⟩ := Cursor.readU32_of h₁ r
  rcases Cursor.readU32_cases h₂ with ⟨ty, r₃, r'⟩ | ⟨e, hm, he⟩
  swap; · exact .inr (.inr ⟨e, hm, by simp [parseLoggedAdif, e₁, e₂, he]⟩)
  obtain ⟨c₃, e₃, h₃, rfl⟩ := Cursor.readU32_of h₂ r'
  by_cases hty : ty = msgTypeLoggedAdif
  swap
  · have hb : OtherMessage b := ⟨schema, ty, c₃.rest, hty, by rw [hbuf, r, r']; simp⟩
    exact .inr (.inl ⟨parseLoggedAdif_of_other hb, hb⟩)
  subst hty
  rcases Cursor.readQstring_cases h₃ with ⟨q₁, id, r₄, hq₁, r₄'⟩ | ⟨e, hm, he⟩
  swap; · exact .inr (.inr ⟨e, hm, by simp [parseLoggedAdif, e₁, e₂, e₃, he]⟩)
  obtain ⟨c₄, e₄, h₄, rfl⟩ := Cursor.readQstring_of h₃ hq₁ r₄'
  rcases Cursor.readQstring_cases h₄ with ⟨q₂, adif, rest, hq₂, r₅⟩ | ⟨e, hm, he⟩
  swap; · exact .inr (.inr ⟨e, hm, by simp [parseLoggedAdif, e₁, e₂, e₃, e₄, he]⟩)
  have hb' : LoggedAdif b adif :=
    ⟨schema, q₁, q₂, rest, id, hq₁, hq₂, by rw [hbuf, r, r', r₄', r₅]; simp⟩
  exact .inl ⟨adif, parseLoggedAdif_of hb', hb'⟩

/-- The decoder accepts the Logged-ADIF messages, with the text of each. -/
theorem parseLoggedAdif_eq_some_iff {b : Bytes} {adif : Text} :
    parseLoggedAdif b = pure (some adif) ↔ LoggedAdif b adif := by
  refine ⟨fun h => ?_, parseLoggedAdif_of⟩
  rcases parseLoggedAdif_returns b with ⟨adif', h', hl⟩ | ⟨h', -⟩ | ⟨e, -, h'⟩ <;> rw [h] at h'
  · cases h'; exact hl
  · cases h'
  · cases h'

/-- It answers `None` to the messages of another type. -/
theorem parseLoggedAdif_eq_none_iff {b : Bytes} :
    parseLoggedAdif b = pure none ↔ OtherMessage b := by
  refine ⟨fun h => ?_, parseLoggedAdif_of_other⟩
  rcases parseLoggedAdif_returns b with ⟨adif', h', -⟩ | ⟨-, ho⟩ | ⟨e, -, h'⟩
  · rw [h] at h'; cases h'
  · exact ho
  · rw [h] at h'; cases h'

/-! ### The test encoder -/

/-- `push_qstring`; the length is cut down to 32 bits. -/
def pushQstring (out : Bytes) (s : Text) : Bytes :=
  out ++ toBeBytes (.ofNat (byteLen s)) ++ utf8 s

def encodePacket (messageType : UInt32) (id : Text) (body : Bytes → Bytes) : Bytes :=
  body (pushQstring (toBeBytes magic ++ toBeBytes 3 ++ toBeBytes messageType) id)

def encodeLoggedAdif (id adif : Text) : Bytes :=
  encodePacket msgTypeLoggedAdif id fun out => pushQstring out adif

theorem loggedAdif_encodeLoggedAdif {id adif : Text} (hid : byteLen id < 0x80000000)
    (hadif : byteLen adif < 0x80000000) : LoggedAdif (encodeLoggedAdif id adif) adif :=
  ⟨3, _, _, [], id, .text id hid, .text adif hadif, by
    simp [encodeLoggedAdif, encodePacket, pushQstring]⟩

/-- **No Qt string is the beginning of another**: what follows it is determined. -/
theorem QString.unique {q q' r r' : Bytes} {s s' : Text} (hq : QString q s) (hq' : QString q' s')
    (h : q ++ r = q' ++ r') : q = q' ∧ r = r' := by
  have h₀ := Cursor.Ok.new (q ++ r)
  have hr : (Cursor.new (q ++ r)).rest = q ++ r := rfl
  obtain ⟨c, e, -, hc⟩ := Cursor.readQstring_of (n := 5) h₀ hq hr
  obtain ⟨c', e', -, hc'⟩ := Cursor.readQstring_of (n := 5) h₀ hq' (hr.trans h)
  rw [e] at e'
  cases e'
  have hrest : r = r' := hc.symm.trans hc'
  exact ⟨List.append_cancel_right (hrest ▸ h), hrest⟩

/-- A Logged-ADIF packet with bytes missing at its end is no message at all. -/
theorem not_message_of_cut {b ext : Bytes} {id adif : Text} (hid : byteLen id < 0x80000000)
    (hadif : byteLen adif < 0x80000000) (hext : ext ≠ [])
    (h : b ++ ext = encodeLoggedAdif id adif) : (∀ s, ¬ LoggedAdif b s) ∧ ¬ OtherMessage b := by
  have henc : encodeLoggedAdif id adif = toBeBytes magic ++ (toBeBytes 3 ++
      (toBeBytes msgTypeLoggedAdif ++ ((toBeBytes (.ofNat (byteLen id)) ++ utf8 id) ++
        ((toBeBytes (.ofNat (byteLen adif)) ++ utf8 adif) ++ [])))) := by
    simp [encodeLoggedAdif, encodePacket, pushQstring]
  rw [henc] at h
  refine ⟨?_, ?_⟩
  · rintro s ⟨schema, q₁, q₂, rest, id', hq₁, hq₂, rfl⟩
    simp only [List.append_assoc] at h
    have h := (List.append_inj (List.append_cancel_left h) rfl).2
    have h := List.append_cancel_left h
    obtain ⟨rfl, h⟩ := hq₁.unique (.text id hid) (by simpa using h)
    have h : q₂ ++ (rest ++ ext) = (toBeBytes (.ofNat (byteLen adif)) ++ utf8 adif) ++ [] := by
      simpa using h
    obtain ⟨-, h⟩ := hq₂.unique (.text adif hadif) h
    exact hext (List.append_eq_nil_iff.mp h).2
  · rintro ⟨schema, ty, rest, hty, rfl⟩
    simp only [List.append_assoc] at h
    have h := (List.append_inj (List.append_cancel_left h) rfl).2
    have h := (List.append_inj h rfl).1
    exact hty (toBeBytes_injective h)

/-- **The decoder, exactly**: `Ok(Some)` on the Logged-ADIF messages, `Ok(None)` on the messages
of another type, `Err` on every other byte string, with no slice out of bounds and no offset that
overflows.  So it decodes what the test encoder encodes, and rejects every proper beginning of
it. -/
theorem decoder_exact (b : Bytes) :
    (∀ s, parseLoggedAdif b = pure (some s) ↔ LoggedAdif b s) ∧
    (parseLoggedAdif b = pure none ↔ OtherMessage b) ∧
    ((∃ e, parseLoggedAdif b = throw e) ↔ (∀ s, ¬ LoggedAdif b s) ∧ ¬ OtherMessage b) ∧
    (parseLoggedAdif b).run ≠ none ∧
    (∀ pos : Nat, parseLoggedAdif b ≠ throw (.parse s!"length overflow at offset {pos}")) ∧
    ∀ id adif, byteLen id < 0x80000000 → byteLen adif < 0x80000000 →
      parseLoggedAdif (encodeLoggedAdif id adif) = pure (some adif) ∧
      (b <+: encodeLoggedAdif id adif → b ≠ encodeLoggedAdif id adif →
        ∃ e, parseLoggedAdif b = throw e) := by
  have herr : (∃ e, parseLoggedAdif b = throw e) ↔ (∀ s, ¬ LoggedAdif b s) ∧ ¬ OtherMessage b := by
    constructor
    · rintro ⟨e, he⟩
      refine ⟨fun s hs => ?_, fun ho => ?_⟩
      · rw [parseLoggedAdif_of hs] at he
        cases he
      · rw [parseLoggedAdif_of_other ho] at he
        cases he
    · rintro ⟨hs, ho⟩
      rcases parseLoggedAdif_returns b with ⟨s, -, h⟩ | ⟨-, h⟩ | ⟨e, -, he⟩
      · exact absurd h (hs s)
      · exact absurd h ho
      · exact ⟨e, he⟩
  refine ⟨fun s => parseLoggedAdif_eq_some_iff, parseLoggedAdif_eq_none_iff, herr, ?_, ?_, ?_⟩
  · intro hp
    rcases parseLoggedAdif_returns b with ⟨s, h, -⟩ | ⟨h, -⟩ | ⟨e, -, h⟩ <;> rw [h] at hp <;>
      cases hp
  · intro pos hp
    rcases parseLoggedAdif_returns b with ⟨s, h, -⟩ | ⟨h, -⟩ | ⟨e, hm, h⟩ <;> rw [h] at hp
    · cases hp
    · cases hp
    · cases hp
      exact hm.ne_overflow pos rfl
  · intro id adif hid hadif
    refine ⟨parseLoggedAdif_of (loggedAdif_encodeLoggedAdif hid hadif), ?_⟩
    rintro ⟨ext, h⟩ hne
    have hext : ext ≠ [] := fun e => hne (by rw [← h, e, List.append_nil])
    exact herr.mpr (not_message_of_cut hid hadif hext h)

/-- A packet and a beginning of it. -/
theorem encoded_packet_exact :
    parseLoggedAdif (encodeLoggedAdif "WSJT-X".toList "<EOR>".toList) =
        pure (some "<EOR>".toList) ∧
      ∃ e, parseLoggedAdif ((encodeLoggedAdif "WSJT-X".toList "<EOR>".toList).take 27) =
        throw e := by
  have h := (decoder_exact ((encodeLoggedAdif "WSJT-X".toList "<EOR>".toList).take 27)).2.2.2.2.2
    "WSJT-X".toList "<EOR>".toList (by decide) (by decide)
  exact ⟨h.1, h.2 (List.take_prefix _ _) (by decide)⟩

end WavelogRelay.Wsjtx
