import WavelogRelay.Library.Decimal
import WavelogRelay.Library.Dialogue
import WavelogRelay.Library.Lines

/-!
# Rig — the line protocol

The commands of `rigctld.rs` and how each is carried out on a connection.  A connection is the
environment of a `Dialogue`: it is asked to send a line, or for the next line it has read, and each
may fail.  What the stream reads is raw: the text up to and with a newline, or up to the end of the
stream.

An RFPOWER value is an `f32`, which is a parameter (`F32`).

* `handleCommand`: the dialogue of a command, with its result.
* `linesOf`: the command lines of a command.
-/

namespace WavelogRelay.Rig
open Library Dialogue

inductive IoError where
  | timedOut
  | unexpectedEof
  | other
  deriving DecidableEq, Repr

inductive RigError where
  | disconnected
  | hamlib (code : Int)
  | badResponse (line : Text)
  deriving DecidableEq, Repr

/-- What is used of `f32`: `parse`, `is_finite`, `clamp(0.0, 1.0)`, and `(x * scale).round()` as an
`i32`. -/
structure F32 (F : Type) where
  parse : Text → Option F
  isFinite : F → Bool
  clamp : F → F
  roundScaled : Nat → F → Int

/-- The powers without a fraction. -/
def wholePower : F32 Nat where
  parse := parseUnsigned 1
  isFinite _ := true
  clamp := id
  roundScaled scale x := scale * x

inductive HamlibMode where
  | lsb
  | usb
  | cw
  | fm
  | am
  | rtty
  | pktLsb
  | pktUsb
  | pktFm
  deriving DecidableEq, Repr

def HamlibMode.asStr : HamlibMode → Text
  | .lsb => "LSB".toList
  | .usb => "USB".toList
  | .cw => "CW".toList
  | .fm => "FM".toList
  | .am => "AM".toList
  | .rtty => "RTTY".toList
  | .pktLsb => "PKTLSB".toList
  | .pktUsb => "PKTUSB".toList
  | .pktFm => "PKTFM".toList

structure RigState (F : Type) where
  freq : UInt64
  mode : Text
  power : Option F
  deriving DecidableEq, Repr

inductive RigCommand where
  | getFreq
  | getMode
  | getPower
  | poll
  | setFreq (hz : UInt64)
  | setMode (mode : HamlibMode)
  | setFreqMode (hz : UInt64) (mode : HamlibMode)
  deriving DecidableEq, Repr

/-- What the reply channel of a command carries when there is no error. -/
inductive Reply (F : Type) where
  | freq (hz : UInt64)
  | mode (mode : Text)
  | power (power : F)
  | state (state : RigState F)
  | done
  deriving DecidableEq, Repr

/-! ### The connection -/

/-- What a connection is asked. -/
inductive Ask where
  | send (line : Text)
  | readLine
  deriving DecidableEq, Repr

/-- How it answers. -/
abbrev Answer : Ask → Type
  | .send _ => Except IoError Unit
  | .readLine => Except IoError Text

/-- A question to the connection, and its answer. -/
abbrev WireEvent := Event Answer

/-- A dialogue with the connection. -/
abbrev Wire := Dialogue Ask Answer IoError

/-- `Connection::send`. -/
def send (line : Text) : Wire Unit := do
  ofExcept (← question (.send line))

/-- `trim_end_matches(['\r', '\n'])`. -/
def trimLine (raw : Text) : Text := trimEndMatches (fun c => c == '\r' || c == '\n') raw

/-- `Connection::read_line`. -/
def readLine : Wire Text := do
  let raw ← ofExcept (← question .readLine)
  -- nothing was read: the server has closed the connection
  if raw = [] then ofExcept (.error .unexpectedEof) else return trimLine raw

/-! ### Responses -/

/-- `parse::<i32>`. -/
def parseI32 (s : Text) : Option Int := parseSigned (-0x80000000) 0x7fffffff s

/-- `parse::<u64>`. -/
def parseU64 (s : Text) : Option UInt64 := (parseUnsigned 0xffffffffffffffff s).map .ofNat

def parseRprt (line : Text) : Option Int :=
  (stripPrefix? "RPRT ".toList line).bind fun n => parseI32 (trim n)

def parseSetResponse (line : Text) : Except RigError Unit :=
  match parseRprt line with
  | some 0 => .ok ()
  | some code => .error (.hamlib code)
  | none => .error (.badResponse line)

/-! ### Commands -/

variable {F : Type}

def execGetFreq : Wire (Except RigError UInt64) := do
  send "f".toList
  let line ← readLine
  match parseRprt line with
  | some code => return .error (.hamlib code)
  | none =>
      match parseU64 line with
      | some hz => return .ok hz
      | none => return .error (.badResponse line)

def execGetMode : Wire (Except RigError Text) := do
  send "m".toList
  let line₁ ← readLine
  match parseRprt line₁ with
  | some code => return .error (.hamlib code)
  | none =>
      let token := firstWord line₁
      if token = [] then
        -- the passband line is read and thrown away, and so is an error
        let _ ← readLine.attempt
        return .error (.badResponse line₁)
      else
        let _ ← readLine
        return .ok token

def execGetPower (R : F32 F) : Wire (Except RigError F) := do
  send "\\get_level RFPOWER".toList
  let line ← readLine
  match parseRprt line with
  | some code => return .error (.hamlib code)
  | none =>
      match R.parse line with
      | none => return .error (.badResponse line)
      | some raw =>
          if R.isFinite raw then return .ok (R.clamp raw) else return .error (.badResponse line)

def execPoll (R : F32 F) : Wire (Except RigError (RigState F)) := do
  match ← execGetFreq with
  | .error e => return .error e
  | .ok freq =>
      match ← execGetMode with
      | .error e => return .error e
      | .ok mode =>
          match ← execGetPower R with
          | .ok power => return .ok { freq, mode, power := some power }
          | .error (.hamlib _) => return .ok { freq, mode, power := none }
          | .error e => return .error e

/-- `F {hz}`. -/
def setFreqLine (hz : UInt64) : Text := "F ".toList ++ decimal hz.toNat

/-- `M {mode} -1`. -/
def setModeLine (mode : HamlibMode) : Text := "M ".toList ++ mode.asStr ++ " -1".toList

def execSetFreq (hz : UInt64) : Wire (Except RigError Unit) := do
  send (setFreqLine hz)
  return parseSetResponse (← readLine)

def execSetMode (mode : HamlibMode) : Wire (Except RigError Unit) := do
  send (setModeLine mode)
  return parseSetResponse (← readLine)

def execSetFreqMode (hz : UInt64) (mode : HamlibMode) : Wire (Except RigError Unit) := do
  send (setFreqLine hz)
  match parseSetResponse (← readLine) with
  | .error e => return .error e
  | .ok () =>
      send (setModeLine mode)
      return parseSetResponse (← readLine)

/-- The `exec` that `handle_command` gives to `dispatch`. -/
def handleCommand (R : F32 F) : RigCommand → Wire (Except RigError (Reply F))
  | .getFreq => return (← execGetFreq).map .freq
  | .getMode => return (← execGetMode).map .mode
  | .getPower => return (← execGetPower R).map .power
  | .poll => return (← execPoll R).map .state
  | .setFreq hz => return (← execSetFreq hz).map fun _ => .done
  | .setMode mode => return (← execSetMode mode).map fun _ => .done
  | .setFreqMode hz mode => return (← execSetFreqMode hz mode).map fun _ => .done

/-- The command lines of a command, in order. -/
def linesOf : RigCommand → List Text
  | .getFreq => ["f".toList]
  | .getMode => ["m".toList]
  | .getPower => ["\\get_level RFPOWER".toList]
  | .poll => ["f".toList, "m".toList, "\\get_level RFPOWER".toList]
  | .setFreq hz => [setFreqLine hz]
  | .setMode mode => [setModeLine mode]
  | .setFreqMode hz mode => [setFreqLine hz, setModeLine mode]

end WavelogRelay.Rig
