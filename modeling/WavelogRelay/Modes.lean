import WavelogRelay.Rig.Protocol

/-!
# Modes — click-to-tune modes

`modes.rs`: the lowercase modes that Wavelog sends in the path, and the hamlib modes they stand
for.  Two of them are resolved through `ModeOverrides`.

* `Mode.fromStr_eq_ok_iff`: the eleven names, each of one mode, and no other text.
-/

namespace WavelogRelay.Modes
open Library Rig

inductive Mode where
  | lsb
  | usb
  | cw
  | fm
  | am
  | rtty
  /-- Resolved via `ModeOverrides.pkt`. -/
  | pkt
  /-- Resolved via `ModeOverrides.dig`. -/
  | dig
  | pktLsb
  | pktUsb
  | pktFm
  deriving DecidableEq, Repr

inductive ModeParseError where
  | unknown (s : Text)
  deriving DecidableEq, Repr

def Mode.fromStr (s : Text) : Except ModeParseError Mode :=
  if s = "lsb".toList then .ok .lsb
  else if s = "usb".toList then .ok .usb
  else if s = "cw".toList then .ok .cw
  else if s = "fm".toList then .ok .fm
  else if s = "am".toList then .ok .am
  else if s = "rtty".toList then .ok .rtty
  else if s = "pkt".toList then .ok .pkt
  else if s = "dig".toList then .ok .dig
  else if s = "pktlsb".toList then .ok .pktLsb
  else if s = "pktusb".toList then .ok .pktUsb
  else if s = "pktfm".toList then .ok .pktFm
  else .error (.unknown s)

/-- Resolution targets for `pkt` and `dig`. -/
structure ModeOverrides where
  pkt : HamlibMode := .pktUsb
  dig : HamlibMode := .pktUsb
  deriving DecidableEq, Repr

def Mode.resolve (overrides : ModeOverrides) : Mode → HamlibMode
  | .lsb => .lsb
  | .usb => .usb
  | .cw => .cw
  | .fm => .fm
  | .am => .am
  | .rtty => .rtty
  | .pktLsb => .pktLsb
  | .pktUsb => .pktUsb
  | .pktFm => .pktFm
  | .pkt => overrides.pkt
  | .dig => overrides.dig

/-- The name of a mode in the path. -/
def Mode.name : Mode → Text
  | .lsb => "lsb".toList
  | .usb => "usb".toList
  | .cw => "cw".toList
  | .fm => "fm".toList
  | .am => "am".toList
  | .rtty => "rtty".toList
  | .pkt => "pkt".toList
  | .dig => "dig".toList
  | .pktLsb => "pktlsb".toList
  | .pktUsb => "pktusb".toList
  | .pktFm => "pktfm".toList

/-- A mode is read back from its name. -/
theorem Mode.fromStr_name (mode : Mode) : Mode.fromStr mode.name = .ok mode := by
  cases mode <;> decide

/-- One comparison of `fromStr`. -/
theorem compared {s t : Text} {found mode : Mode} {rest : Except ModeParseError Mode}
    (h : (if s = t then .ok found else rest) = .ok mode) :
    s = t ∧ found = mode ∨ rest = .ok mode := by
  split at h
  · rename_i hst
    exact .inl ⟨hst, Except.ok.inj h⟩
  · exact .inr h

theorem Mode.eq_name_of_fromStr {s : Text} {mode : Mode} (h : Mode.fromStr s = .ok mode) :
    s = mode.name := by
  unfold Mode.fromStr at h
  iterate 11
    rcases compared h with ⟨rfl, rfl⟩ | h
    · rfl
  cases h

/-- **The accepted names** are those of the modes. -/
theorem Mode.fromStr_eq_ok_iff {s : Text} {mode : Mode} :
    Mode.fromStr s = .ok mode ↔ s = mode.name := by
  constructor
  · exact Mode.eq_name_of_fromStr
  · rintro rfl
    exact mode.fromStr_name

end WavelogRelay.Modes
