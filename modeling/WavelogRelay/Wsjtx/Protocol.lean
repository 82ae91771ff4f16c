import WavelogRelay.Library.Decimal

/-!
# WSJT-X — the datagram decoder and the ADIF inspector

`wsjtx/protocol.rs`, definition by definition.  A Rust `str` is a `Text`, its indices byte
offsets.  A slice taken out of range, or off a character boundary of a `str`, panics, and the
release profile aborts the process on a panic; a computation that may panic has type `Option`,
with `none` for the panic, and one that may also fail has type `Fallible`.

* `parseLoggedAdif` decodes a datagram: `Ok(Some(adif))` for a Logged-ADIF message, `Ok(None)`
  for another WSJT-X message, `Err` otherwise.
* `adifField` looks an ADIF field up by its tag; `summarizeAdif` looks up three.
* `receive` is what the listener does with a datagram before it queues the ADIF text.
-/

namespace WavelogRelay.Wsjtx
open Library

/-- `usize::MAX` on the 64-bit targets the crate is built for. -/
def usizeMax : Nat := 0xffffffffffffffff

/-- `usize::checked_add`. -/
def checkedAdd (a b : Nat) : Option Nat := if a + b ≤ usizeMax then some (a + b) else none

theorem checkedAdd_eq_some_iff {a b c : Nat} :
    checkedAdd a b = some c ↔ a + b ≤ usizeMax ∧ a + b = c := by
  by_cases h : a + b ≤ usizeMax <;> simp [checkedAdd, h]

/-! ### The datagram -/

def magic : UInt32 := 0xadbccbda

def msgTypeLoggedAdif : UInt32 := 12

inductive WsjtxError where
  | parse (msg : String)
  deriving DecidableEq, Repr

/-- A computation that returns a value, fails with an error, or panics (`none`). -/
abbrev Fallible := ExceptT WsjtxError Option

/-- `u32::from_be_bytes`. -/
def fromBeBytes (b₀ b₁ b₂ b₃ : UInt8) : UInt32 :=
  .ofNat (b₀.toNat * 0x1000000 + b₁.toNat * 0x10000 + b₂.toNat * 0x100 + b₃.toNat)

/-- `u32::to_be_bytes`. -/
def toBeBytes (n : UInt32) : Bytes :=
  [.ofNat (n.toNat / 0x1000000), .ofNat (n.toNat / 0x10000), .ofNat (n.toNat / 0x100),
    .ofNat n.toNat]

/-- `as i32`. -/
def asI32 (n : UInt32) : Int :=
  if n.toNat < 0x80000000 then n.toNat else n.toNat - 0x100000000

/-- `{n:08x}`. -/
def hex8 (n : UInt32) : String :=
  let ds := Nat.toDigits 16 n.toNat
  String.ofList (List.replicate (8 - ds.length) '0' ++ ds)

/-- `&buf[a..b]`; no value where it panics. -/
def byteSlice (buf : Bytes) (a b : Nat) : Option Bytes :=
  if a ≤ b ∧ b ≤ buf.length then some ((buf.drop a).take (b - a)) else none

structure Cursor where
  buf : Bytes
  pos : Nat
  deriving DecidableEq, Repr

namespace Cursor

def new (buf : Bytes) : Cursor := ⟨buf, 0⟩

def take (c : Cursor) (n : Nat) : Fallible (Bytes × Cursor) := do
  match checkedAdd c.pos n with
  | none => throw (.parse s!"length overflow at offset {c.pos}")
  | some stop =>
      if stop > c.buf.length then
        let remaining := c.buf.length - c.pos
        throw (.parse s!"truncated: need {n} bytes at offset {c.pos}, have {remaining}")
      let slice ← ExceptT.lift (byteSlice c.buf c.pos stop)
      return (slice, { c with pos := stop })

def readU32 (c : Cursor) : Fallible (UInt32 × Cursor) := do
  let (bytes, c) ← c.take 4
  match bytes with
  | b₀ :: b₁ :: b₂ :: b₃ :: _ => return (fromBeBytes b₀ b₁ b₂ b₃, c)
  -- `bytes[0]` to `bytes[3]` panic on a shorter slice
  | _ => ExceptT.lift none

def readQstring (c : Cursor) : Fallible (Text × Cursor) := do
  let (word, c) ← c.readU32
  let len := asI32 word
  if len = -1 then
    return ([], c)
  if len < 0 then
    throw (.parse s!"invalid QString length {len}")
  let (bytes, c) ← c.take len.toNat
  match fromUtf8 bytes with
  | some s => return (s, c)
  | none => throw (.parse "invalid UTF-8 in QString field")

end Cursor

def parseLoggedAdif (bytes : Bytes) : Fallible (Option Text) := do
  let c := Cursor.new bytes
  let (word, c) ← c.readU32
  if word ≠ magic then
    throw (.parse ("bad magic: 0x" ++ hex8 word))
  let (_, c) ← c.readU32
  let (messageType, c) ← c.readU32
  if messageType ≠ msgTypeLoggedAdif then
    return none
  let (_, c) ← c.readQstring
  let (adif, _) ← c.readQstring
  return some adif

/-! ### The ADIF text -/

/-- `str::eq_ignore_ascii_case`. -/
def eqIgnoreAsciiCase (s t : Text) : Bool := s.map Char.toLower == t.map Char.toLower

/-- How an iteration of the scan ends: it returns, or goes on at a cursor. -/
inductive AdifStep where
  | done (value : Option Text)
  | next (cursor : Nat)
  deriving DecidableEq, Repr

/-- One iteration of the scan of `adifField`, from `cursor`. -/
def adifStep (adif name : Text) (cursor : Nat) : Option AdifStep := do
  let rest ← slice adif cursor (byteLen adif)
  match findChar '<' rest with
  | none => return .done none
  | some off =>
      let headerStart := cursor + off + 1
      let rest ← slice adif headerStart (byteLen adif)
      match findChar '>' rest with
      | none => return .done none
      | some close =>
          let headerEnd := headerStart + close
          let header ← slice adif headerStart headerEnd
          match header.splitOn ':' with
          | tag :: lenStr :: _ =>
              match parseUnsigned usizeMax lenStr with
              | none => return .next (headerEnd + 1)
              | some len =>
                  let valueStart := headerEnd + 1
                  match checkedAdd valueStart len with
                  | none => return .done none
                  | some valueEnd =>
                      if valueEnd > byteLen adif then
                        return .done none
                      if eqIgnoreAsciiCase tag name then
                        return .done (some (← slice adif valueStart valueEnd))
                      return .next valueEnd
          -- no length present (`<EOR>`, `<EOH>`)
          | _ => return .next (headerEnd + 1)

/-- The scan makes progress: the next cursor is past this one, and in range. -/
theorem adifStep_next {adif name : Text} {cursor next : Nat}
    (h : adifStep adif name cursor = some (.next next)) : cursor < next ∧ next ≤ byteLen adif := by
  simp only [adifStep, Option.bind_eq_bind, Option.bind_eq_some_iff] at h
  obtain ⟨rest, hrest, h⟩ := h
  split at h
  · cases h
  · rename_i off hoff
    obtain ⟨rest', hrest', h⟩ := Option.bind_eq_some_iff.mp h
    split at h
    · cases h
    · rename_i close hclose
      obtain ⟨header, -, h⟩ := Option.bind_eq_some_iff.mp h
      have hend : cursor + off + 1 + close + 1 ≤ byteLen adif := by
        obtain ⟨pre, post, -, hstart, hlen⟩ := slice_eq_some_iff.mp hrest'
        obtain ⟨pre', post', rfl, -, rfl⟩ := findChar_eq_some hclose
        have hgt : '>'.utf8Size = 1 := by decide
        simp only [byteLen_append, byteLen_cons] at hlen
        omega
      split at h
      · split at h
        · cases h; omega
        · split at h
          · cases h
          · rename_i valueEnd hsum
            have hv := (checkedAdd_eq_some_iff.mp hsum).2
            split at h
            · cases h
            · simp only [Option.pure_def] at h
              split at h
              · obtain ⟨v, -, h⟩ := Option.bind_eq_some_iff.mp h
                cases h
              · cases h; omega
      · cases h; omega

/-- The scan of `adifField`, from `cursor` on. -/
def adifLoop (adif name : Text) (cursor : Nat) : Option (Option Text) :=
  match _h : adifStep adif name cursor with
  | none => none
  | some (.done value) => some value
  | some (.next next) => adifLoop adif name next
termination_by byteLen adif - cursor
decreasing_by have := adifStep_next _h; omega

/-- Locate an ADIF field's value by tag. -/
def adifField (adif name : Text) : Option (Option Text) := adifLoop adif name 0

structure AdifSummary where
  callsign : Option Text
  mode : Option Text
  band : Option Text
  deriving DecidableEq, Repr

def summarizeAdif (adif : Text) : Option AdifSummary := do
  let callsign ← adifField adif "CALL".toList
  let mode ← adifField adif "MODE".toList
  let band ← adifField adif "BAND".toList
  return { callsign, mode, band }

/-! ### The receive branch of the listener -/

/-- `RECV_BUF_SIZE`. -/
def recvBufSize : Nat := 65535

/-- The bytes of one datagram, as `recv_from` puts them into the receive buffer. -/
structure Datagram where
  bytes : Bytes
  len_le : bytes.length ≤ recvBufSize

/-- What the listener does with a datagram before it queues anything: decode it, and look into
the ADIF text for the log line. -/
def receive (d : Datagram) : Fallible (Option (Text × AdifSummary)) := do
  match ← parseLoggedAdif d.bytes with
  | some adif => return some (adif, ← ExceptT.lift (summarizeAdif adif))
  | none => return none

end WavelogRelay.Wsjtx
