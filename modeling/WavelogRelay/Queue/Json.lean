import WavelogRelay.Queue.Model
import WavelogRelay.Library.Decimal

/-!
# Queue — the JSON lines

`json` writes an entry as `serde_json` does: one object, the fields in order, no blanks, numbers
in decimal, and in the string the quote, the backslash and the control characters escaped and
nothing else.  It reads these texts only.

* `json_strict`: it meets every law the queue relies on.  The quote is what carries the argument:
  in an escaped text no quote stands bare (`escape_quote_inj`), so where a second object begins
  inside the string of a first, that object's own first quote ends the string, and no comma
  follows (`no_splice`).
-/

namespace WavelogRelay.Queue
open Library

/-! ### Strings -/

def hexDigit (n : Nat) : Char := Nat.digitChar n

def hexValue (c : Char) : Nat := if c.isDigit then c.toNat - 48 else c.toNat - 87

def escapeChar (c : Char) : Text :=
  if c = '"' then ['\\', '"']
  else if c = '\\' then ['\\', '\\']
  else if c.toNat = 8 then ['\\', 'b']
  else if c.toNat = 9 then ['\\', 't']
  else if c.toNat = 10 then ['\\', 'n']
  else if c.toNat = 12 then ['\\', 'f']
  else if c.toNat = 13 then ['\\', 'r']
  else if c.toNat < 32 then
    ['\\', 'u', '0', '0', hexDigit (c.toNat / 16), hexDigit (c.toNat % 16)]
  else [c]

def escape (s : Text) : Text := s.flatMap escapeChar

def unescapeChar (c : Char) : Char :=
  if c = 'b' then Char.ofNat 8
  else if c = 't' then Char.ofNat 9
  else if c = 'n' then Char.ofNat 10
  else if c = 'f' then Char.ofNat 12
  else if c = 'r' then Char.ofNat 13
  else c

/-- The text of a string up to its closing quote, and what follows the quote. -/
def readString : Text → Option (Text × Text)
  | [] => none
  | c :: r =>
      if c = '"' then some ([], r)
      else if c = '\\' then
        match r with
        | 'u' :: _ :: _ :: a :: b :: r =>
            (readString r).map fun (s, r) => (Char.ofNat (16 * hexValue a + hexValue b) :: s, r)
        | d :: r => (readString r).map fun (s, r) => (unescapeChar d :: s, r)
        | [] => none
      else (readString r).map fun (s, r) => (c :: s, r)

@[simp] theorem escape_nil : escape [] = [] := rfl

@[simp] theorem escape_cons (c : Char) (s : Text) : escape (c :: s) = escapeChar c ++ escape s :=
  rfl

/-- A backslash and one character. -/
theorem readString_pair {d : Char} (hd : d ≠ 'u') (t : Text) :
    readString ('\\' :: d :: t) = (readString t).map fun (s, r) => (unescapeChar d :: s, r) := by
  rw [readString.eq_def]
  simp [hd]

/-- An escaped character is itself, or a backslash and characters none of which is a brace. -/
theorem escapeChar_cases (c : Char) :
    escapeChar c = [c] ∧ c ≠ '"' ∧ c ≠ '\\' ∧ 32 ≤ c.toNat ∨
      ∃ r, escapeChar c = '\\' :: r ∧ '{' ∉ r ∧ (∀ d ∈ r, 32 ≤ d.toNat) ∧
        ∀ t, readString ('\\' :: r ++ t) = (readString t).map fun (s, r) => (c :: s, r) := by
  have hctl : ∀ n, n < 32 → '{' ≠ hexDigit (n / 16) ∧ '{' ≠ hexDigit (n % 16) ∧
      32 ≤ (hexDigit (n / 16)).toNat ∧ 32 ≤ (hexDigit (n % 16)).toNat ∧
      16 * hexValue (hexDigit (n / 16)) + hexValue (hexDigit (n % 16)) = n := by decide
  have hpair : ∀ d : Char, d ≠ 'u' ∧ '{' ≠ d ∧ 32 ≤ d.toNat → unescapeChar d = c →
      ∃ r, ['\\', d] = '\\' :: r ∧ '{' ∉ r ∧ (∀ d ∈ r, 32 ≤ d.toNat) ∧
        ∀ t, readString ('\\' :: r ++ t) = (readString t).map fun (s, r) => (c :: s, r) := by
    rintro d ⟨hu, hbrace, hd⟩ rfl
    exact ⟨[d], rfl, by simpa using hbrace, by simpa using hd, fun t => readString_pair hu t⟩
  have hof : ∀ n, c.toNat = n → Char.ofNat n = c := fun n h => by rw [← h, Char.ofNat_toNat]
  unfold escapeChar
  split
  · rename_i h
    exact .inr (hpair '"' (by decide) h.symm)
  split
  · rename_i h
    exact .inr (hpair '\\' (by decide) h.symm)
  split
  · rename_i h
    exact .inr (hpair 'b' (by decide) (hof _ h))
  split
  · rename_i h
    exact .inr (hpair 't' (by decide) (hof _ h))
  split
  · rename_i h
    exact .inr (hpair 'n' (by decide) (hof _ h))
  split
  · rename_i h
    exact .inr (hpair 'f' (by decide) (hof _ h))
  split
  · rename_i h
    exact .inr (hpair 'r' (by decide) (hof _ h))
  split
  · rename_i h
    obtain ⟨h₁, h₂, h₃, h₄, h₅⟩ := hctl _ h
    refine .inr ⟨_, rfl, ?_, ?_, fun t => ?_⟩
    · simp [h₁, h₂]
    · simp [h₃, h₄]
    · simp [readString, h₅]
  · rename_i hq hb _ _ _ _ _ h
    exact .inl ⟨rfl, hq, hb, by omega⟩

theorem readString_quote (r : Text) : readString ('"' :: r) = some ([], r) := by
  rw [readString.eq_def]
  simp

theorem readString_plain {c : Char} (hq : c ≠ '"') (hb : c ≠ '\\') (r : Text) :
    readString (c :: r) = (readString r).map fun (s, r) => (c :: s, r) := by
  rw [readString.eq_def]
  simp [hq, hb]

theorem readString_escape (s r : Text) : readString (escape s ++ '"' :: r) = some (s, r) := by
  induction s with
  | nil => exact readString_quote r
  | cons c s ih =>
      rcases escapeChar_cases c with ⟨e, hq, hb, -⟩ | ⟨t, e, -, -, hread⟩
      · simp [e, readString_plain hq hb, ih]
      · rw [escape_cons, e, List.append_assoc, hread, ih]
        rfl

theorem control_of_mem_escape {s : Text} {d : Char} (h : d ∈ escape s) : 32 ≤ d.toNat := by
  obtain ⟨c, -, h⟩ := List.mem_flatMap.mp h
  rcases escapeChar_cases c with ⟨e, -, -, hc⟩ | ⟨t, e, -, ht, -⟩ <;> rw [e] at h
  · rw [List.mem_singleton.mp h]; exact hc
  · rcases List.mem_cons.mp h with rfl | h
    · decide
    · exact ht d h

/-- An escaped text ends at the first bare quote. -/
theorem escape_quote_inj {s s' r r' : Text} (h : escape s ++ '"' :: r = escape s' ++ '"' :: r') :
    s = s' ∧ r = r' := by
  have := readString_escape s r
  rw [h, readString_escape] at this
  simpa [eq_comm] using this

/-- No escaped text begins with a bare quote. -/
theorem escape_ne_quote {s r t : Text} (hs : s ≠ []) : escape s ++ t ≠ '"' :: r := by
  obtain ⟨c, s, rfl⟩ := List.exists_cons_of_ne_nil hs
  rcases escapeChar_cases c with ⟨e, hq, -, -⟩ | ⟨u, e, -, -, -⟩
  · simp [e, hq]
  · simp [e]

/-- A brace in an escaped text is a character of the text. -/
theorem escape_brace : ∀ {s x y : Text}, escape s = x ++ '{' :: y → ∃ s', y = escape s'
  | [], x, y, h => by simp at h
  | c :: s, x, y, h => by
      rw [escape_cons] at h
      rcases List.append_eq_append_iff.mp h with ⟨a, rfl, ha⟩ | ⟨a, ha, hy⟩
      · exact escape_brace ha
      · cases a with
        | nil => exact escape_brace (x := []) (by simpa using hy.symm)
        | cons d a =>
            obtain ⟨rfl, rfl⟩ := List.cons.inj hy
            rcases escapeChar_cases c with ⟨e, -, -, -⟩ | ⟨u, e, hu, -, -⟩ <;> rw [e] at ha
            · -- the character is the brace itself
              cases x with
              | nil =>
                  obtain ⟨-, rfl⟩ := List.cons.inj ha
                  exact ⟨s, rfl⟩
              | cons _ x => simp at ha
            · cases x with
              | nil => simp at ha
              | cons _ x =>
                  obtain ⟨-, rfl⟩ := List.cons.inj ha
                  simp at hu

/-! ### Objects -/

def seqLit : Text := ['"', 's', 'e', 'q', '"', ':']

def adifLit : Text := [',', '"', 'a', 'd', 'i', 'f', '"', ':', '"']

def receivedAtLit : Text :=
  [',', '"', 'r', 'e', 'c', 'e', 'i', 'v', 'e', 'd', '_', 'a', 't', '"', ':']

/-- What follows the opening brace and the first field's value. -/
def jsonRest (adif : Text) (receivedAt : UInt64) : Text :=
  escape adif ++ '"' :: (receivedAtLit ++ (decimal receivedAt.toNat ++ ['}']))

def writeEntry (e : Entry) : Text :=
  '{' :: (seqLit ++ (decimal e.seq.toNat ++ (adifLit ++ jsonRest e.adif e.receivedAt)))

def stripLit (lit t : Text) : Option Text :=
  if lit.isPrefixOf t then some (t.drop lit.length) else none

/-- A run of digits and what follows it. -/
def readNumber (t : Text) : Option (UInt64 × Text) :=
  (digitsValue (t.takeWhile Char.isDigit)).map fun n => (.ofNat n, t.dropWhile Char.isDigit)

def readFields (t : Text) : Option Entry := do
  let t ← stripLit ('{' :: seqLit) t
  let (seq, t) ← readNumber t
  let t ← stripLit adifLit t
  let (adif, t) ← readString t
  let t ← stripLit receivedAtLit t
  let (receivedAt, t) ← readNumber t
  if t = ['}'] then some { seq, adif, receivedAt } else none

/-- The entry a text is the line of. -/
def readEntry (t : Text) : Option Entry := (readFields t).filter fun e => writeEntry e == t

def json : SerdeJson := { toString := writeEntry, fromStr := readEntry }

theorem takeWhile_decimal (n : Nat) {c : Char} (r : Text) (hc : c.isDigit = false) :
    (decimal n ++ c :: r).takeWhile Char.isDigit = decimal n := by
  rw [List.takeWhile_append_of_pos fun d hd => isDigit_of_mem_decimal hd]
  simp [hc]

theorem dropWhile_decimal (n : Nat) {c : Char} (r : Text) (hc : c.isDigit = false) :
    (decimal n ++ c :: r).dropWhile Char.isDigit = c :: r := by
  rw [List.dropWhile_append_of_pos fun d hd => isDigit_of_mem_decimal hd]
  simp [hc]

theorem readNumber_decimal (n : UInt64) {c : Char} (r : Text) (hc : c.isDigit = false) :
    readNumber (decimal n.toNat ++ c :: r) = some (n, c :: r) := by
  simp [readNumber, takeWhile_decimal _ r hc, dropWhile_decimal _ r hc]

theorem writeEntry_front (e : Entry) : ∃ t, writeEntry e = '{' :: '"' :: 's' :: t := ⟨_, rfl⟩

theorem stripLit_append (lit t : Text) : stripLit lit (lit ++ t) = some t := by
  have : lit.isPrefixOf (lit ++ t) := List.isPrefixOf_iff_prefix.mpr (List.prefix_append lit t)
  simp [stripLit, this]

theorem readFields_writeEntry (e : Entry) : readFields (writeEntry e) = some e := by
  have h₁ : stripLit ('{' :: seqLit) (writeEntry e) =
      some (decimal e.seq.toNat ++ (adifLit ++ jsonRest e.adif e.receivedAt)) :=
    stripLit_append ('{' :: seqLit) _
  have h₂ : readNumber (decimal e.seq.toNat ++ (adifLit ++ jsonRest e.adif e.receivedAt)) =
      some (e.seq, adifLit ++ jsonRest e.adif e.receivedAt) :=
    readNumber_decimal e.seq _ (c := ',') (by decide)
  have h₃ : readString (jsonRest e.adif e.receivedAt) =
      some (e.adif, receivedAtLit ++ (decimal e.receivedAt.toNat ++ ['}'])) :=
    readString_escape _ _
  have h₄ := readNumber_decimal e.receivedAt [] (c := '}') (by decide)
  simp [readFields, h₁, h₂, h₃, h₄, stripLit_append]

theorem readEntry_writeEntry (e : Entry) : readEntry (writeEntry e) = some e := by
  simp [readEntry, readFields_writeEntry]

theorem writeEntry_of_readEntry {t : Text} {e : Entry} (h : readEntry t = some e) :
    writeEntry e = t := by
  have := (Option.filter_eq_some_iff.mp h).2
  simpa using this

theorem decimal_append_inj {n m : Nat} {c d : Char} {r r' : Text} (hc : c.isDigit = false)
    (hd : d.isDigit = false) (h : decimal n ++ c :: r = decimal m ++ d :: r') :
    n = m ∧ c :: r = d :: r' := by
  have h₁ := takeWhile_decimal n r hc
  have h₂ := dropWhile_decimal n r hc
  rw [h, takeWhile_decimal m r' hd] at h₁
  rw [h, dropWhile_decimal m r' hd] at h₂
  exact ⟨(decimal_injective h₁).symm, h₂.symm⟩

/-- No line begins another. -/
theorem writeEntry_append_inj {e e' : Entry} {r r' : Text}
    (h : writeEntry e ++ r = writeEntry e' ++ r') : e = e' ∧ r = r' := by
  simp only [writeEntry, jsonRest, List.cons_append, List.append_assoc, List.nil_append,
    List.cons.injEq, true_and, List.append_cancel_left_eq] at h
  obtain ⟨hseq, h₁⟩ := decimal_append_inj (c := ',') (d := ',') (by decide) (by decide) h
  obtain ⟨hadif, h₂⟩ := escape_quote_inj ((List.append_right_inj adifLit).mp h₁)
  obtain ⟨hat, h₃⟩ := decimal_append_inj (by decide) (by decide)
    ((List.append_right_inj receivedAtLit).mp h₂)
  refine ⟨?_, (List.cons.inj h₃).2⟩
  obtain ⟨s, a, t⟩ := e
  obtain ⟨s', a', t'⟩ := e'
  cases UInt64.toNat_inj.mp hseq
  cases UInt64.toNat_inj.mp hat
  cases hadif
  rfl

/-- **No list of objects, whole or cut short, reads as the rest of a string** that a comma
follows. -/
theorem no_splice : ∀ {ps : List Text} {s r : Text},
    (∀ p ∈ ps, p ≠ [] ∧ ∃ e, p <+: writeEntry e) → ps.flatten ≠ escape s ++ '"' :: ',' :: r
  | [], s, r, _, h => by
      rcases List.eq_nil_or_concat (escape s) with e | ⟨_, _, e⟩ <;> simp [e] at h
  | p :: ps, s, r, hp, h => by
      obtain ⟨hne, e, hpre⟩ := hp p (by simp)
      have htail := fun q hq => hp q (List.mem_cons_of_mem p hq)
      have hhead : ∀ {q}, q ≠ [] → (∃ e, q <+: writeEntry e) → ∃ q', q = '{' :: q' := by
        rintro q hq ⟨e, t, ht⟩
        obtain ⟨c, q, rfl⟩ := List.exists_cons_of_ne_nil hq
        exact ⟨q, by rw [(List.cons.inj ht).1]⟩
      obtain ⟨p, rfl⟩ := hhead hne ⟨e, hpre⟩
      rw [List.flatten_cons, List.cons_append] at h
      -- the brace is a character of the string
      obtain ⟨s, rfl⟩ : ∃ s', s = '{' :: s' := by
        cases s with
        | nil => simp at h
        | cons c s =>
            rcases escapeChar_cases c with ⟨e, -, -, -⟩ | ⟨u, e, -, -, -⟩
            · rw [escape_cons, e] at h
              exact ⟨s, by rw [(List.cons.inj h).1]⟩
            · rw [escape_cons, e] at h
              simp at h
      have hbrace : escapeChar '{' = ['{'] := by decide
      rw [escape_cons, hbrace] at h
      have h := (List.cons.inj h).2
      cases p with
      | nil => exact no_splice htail (by simpa using h)
      | cons d p =>
          -- the object's first quote ends the string
          obtain ⟨front, hfront⟩ := writeEntry_front e
          obtain ⟨t, ht⟩ := hpre
          rw [hfront] at ht
          obtain ⟨rfl, hrest⟩ := List.cons.inj (List.cons.inj ht).2
          have hs : s = [] := by
            by_contra hs
            exact escape_ne_quote hs h.symm
          subst hs
          have h := (List.cons.inj h).2
          cases p with
          | nil =>
              cases ps with
              | nil => simp at h
              | cons q ps =>
                  obtain ⟨hq, hq'⟩ := htail q (by simp)
                  obtain ⟨q, rfl⟩ := hhead hq hq'
                  simp at h
          | cons d p =>
              have h₁ := (List.cons.inj h).1
              rw [(List.cons.inj hrest).1] at h₁
              exact absurd h₁ (by decide)

/-- A brace after the first one is in the string. -/
theorem writeEntry_brace {e : Entry} {x y : Text} (h : writeEntry e = '{' :: (x ++ '{' :: y)) :
    ∃ s r, y = escape s ++ '"' :: ',' :: r := by
  have hdec : ∀ n, '{' ∉ decimal n := fun n h =>
    absurd (isDigit_of_mem_decimal h) (by decide)
  -- the brace is past `front`, which has none
  have skip : ∀ {front t x : Text}, '{' ∉ front → front ++ t = x ++ '{' :: y →
      ∃ x', t = x' ++ '{' :: y := by
    intro front t x hf h
    rcases List.append_eq_append_iff.mp h with ⟨a, rfl, rfl⟩ | ⟨a, rfl, ha⟩
    · exact ⟨a, rfl⟩
    · cases a with
      | nil => exact ⟨[], by simpa using ha.symm⟩
      | cons c a => rw [(List.cons.inj ha).1] at hf; simp at hf
  obtain ⟨x, h⟩ := skip (by decide) (List.cons.inj h).2
  obtain ⟨x, h⟩ := skip (hdec _) h
  obtain ⟨x, h⟩ := skip (by decide) h
  rw [jsonRest] at h
  rcases List.append_eq_append_iff.mp h with ⟨a, rfl, ha⟩ | ⟨a, ha, hy⟩
  · have hno : '{' ∉ '"' :: (receivedAtLit ++ (decimal e.receivedAt.toNat ++ ['}'])) := by
      simp only [List.mem_cons, List.mem_append, not_or, hdec, not_false_eq_true, true_and]
      decide
    rw [ha] at hno
    simp at hno
  · cases a with
    | nil => simp at hy
    | cons c a =>
        obtain ⟨rfl, rfl⟩ := List.cons.inj hy
        obtain ⟨s, rfl⟩ := escape_brace ha
        exact ⟨s, _, rfl⟩

/-- **The codec meets every law.** -/
theorem json_strict : json.Strict where
  round_trip := readEntry_writeEntry
  no_control e c h := by
    have hdec : ∀ n, c ∈ decimal n → 32 ≤ c.toNat := fun n h => by
      have := isDigit_of_mem_decimal h
      simp only [Char.isDigit, Bool.and_eq_true, decide_eq_true_eq, ge_iff_le,
        UInt32.le_iff_toNat_le] at this
      exact Nat.le_trans (by decide) this.1
    have hlit : ∀ {l : Text}, (l.all fun d => decide (32 ≤ d.toNat)) = true → c ∈ l →
        32 ≤ c.toNat := fun hl hc => by
      simpa using List.all_eq_true.mp hl c hc
    suffices 32 ≤ c.toNat from UInt32.le_iff_toNat_le.mpr this
    simp only [json, writeEntry, jsonRest, List.mem_cons, List.mem_append, List.not_mem_nil,
      or_false] at h
    rcases h with rfl | h | h | h | h | rfl | h | h | rfl
    · decide
    · exact hlit (by decide) h
    · exact hdec _ h
    · exact hlit (by decide) h
    · exact control_of_mem_escape h
    · decide
    · exact hlit (by decide) h
    · exact hdec _ h
    · decide
  brace e := ⟨_, rfl⟩
  truncated e t ht hne := by
    cases h : json.fromStr t with
    | none => rfl
    | some e' =>
        obtain ⟨r, hr⟩ := ht
        have ht := writeEntry_of_readEntry h
        rw [← ht, ← List.append_nil (json.toString e)] at hr
        obtain ⟨rfl, -⟩ := writeEntry_append_inj hr
        exact absurd ht.symm hne
  spliced ps hlen hps := by
    cases h : json.fromStr ps.flatten with
    | none => rfl
    | some e =>
        have he := writeEntry_of_readEntry h
        obtain ⟨p, q, ps, rfl⟩ : ∃ p q ps', ps = p :: q :: ps' := by
          rcases ps with _ | ⟨p, _ | ⟨q, ps⟩⟩
          · simp at hlen
          · simp at hlen
          · exact ⟨p, q, ps, rfl⟩
        obtain ⟨hp, e₁, r₁, h₁⟩ := hps p (by simp)
        obtain ⟨hq, e₂, r₂, h₂⟩ := hps q (by simp)
        obtain ⟨c, p, rfl⟩ := List.exists_cons_of_ne_nil hp
        obtain ⟨d, q, rfl⟩ := List.exists_cons_of_ne_nil hq
        cases (List.cons.inj h₁).1
        cases (List.cons.inj h₂).1
        obtain ⟨s, r, hy⟩ := writeEntry_brace (x := p) (y := q ++ ps.flatten) (by simpa using he)
        have hno : (('{' :: q) :: ps).flatten ≠ escape ('{' :: s) ++ '"' :: ',' :: r :=
          no_splice fun p' hp' => hps p' (List.mem_cons_of_mem _ hp')
        have hbrace : escapeChar '{' = ['{'] := by decide
        exact absurd (by simp [hbrace, hy]) hno

end WavelogRelay.Queue
