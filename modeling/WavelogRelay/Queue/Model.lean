import WavelogRelay.Library.Lines

/-!
# Queue — the persistent QSO queue

`qso_queue.rs`, definition by definition.  `Disk` is what a crash leaves: the queue file and the
files renamed aside.  `Inner` is what the process holds in memory.  Each call returns its result
with the memory and the disk it leaves, on its errors too.

What a call to the file system does is its last argument (`OpenIo`, `AppendIo`, `RewriteIo`): it
goes through, or fails after what it has done so far, and says so.  A process killed inside an
append leaves what a failed write leaves.

`serde_json` is a parameter, `SerdeJson`.  `SerdeJson.Lawful` states what the queue relies on,
and `SerdeJson.Strict` what it relies on once a line may be cut short.
-/

namespace WavelogRelay.Queue
open Library

/-- `MAX_QUEUE_LEN`. -/
@[irreducible] def maxQueueLen : Nat := 1000

theorem lt_maxQueueLen {n : Nat} (h : n < 1000) : n < maxQueueLen := by
  unfold maxQueueLen
  exact h

theorem maxQueueLen_pos : 0 < maxQueueLen := lt_maxQueueLen (by decide)

inductive IoErrorKind where
  | notFound
  | invalidData
  | other
  deriving DecidableEq, Repr

inductive QsoQueueError where
  | io (kind : IoErrorKind)
  | alreadyLocked
  deriving DecidableEq, Repr

structure Entry where
  seq : UInt64
  adif : Text
  receivedAt : UInt64
  deriving DecidableEq, Repr

/-- What a replay lists of an entry. -/
abbrev Entry.pair (e : Entry) : UInt64 × Text := (e.seq, e.adif)

/-- `serde_json` at `Entry`: `to_string`, which cannot fail on it, and `from_str`. -/
structure SerdeJson where
  toString : Entry → Text
  fromStr : Text → Option Entry

/-- An entry is written as one JSON object, control characters escaped, and read back. -/
structure SerdeJson.Lawful (J : SerdeJson) : Prop where
  round_trip : ∀ e, J.fromStr (J.toString e) = some e
  no_control : ∀ e, ∀ c ∈ J.toString e, 0x20 ≤ c.val
  brace : ∀ e, ∃ body, J.toString e = '{' :: body

/-- An object cut short is no object, nor is one, whole or cut short, with more of them written
right after it. -/
structure SerdeJson.Strict (J : SerdeJson) : Prop extends J.Lawful where
  truncated : ∀ e t, t <+: J.toString e → t ≠ J.toString e → J.fromStr t = none
  spliced : ∀ ps : List Text, 2 ≤ ps.length → (∀ p ∈ ps, p ≠ [] ∧ ∃ e, p <+: J.toString e) →
    J.fromStr ps.flatten = none

/-- What `QsoQueue` holds in memory. -/
structure Inner where
  entries : List Entry
  nextSeq : UInt64
  deriving DecidableEq, Repr

/-- The queue file, if there is one, and the corrupt files renamed aside, by the time in their
names. -/
structure Disk where
  file : Option Bytes
  aside : List (UInt64 × Bytes)
  deriving DecidableEq, Repr

/-! ### Reading the file -/

structure ParseOutcome where
  entries : List Entry
  trailingDropped : Bool
  deriving DecidableEq, Repr

/-- The loop of `parse_entries` over the non-empty lines, after the entries `acc`. -/
def parseLines (J : SerdeJson) : List Text → List Entry → Option ParseOutcome
  | [], acc => some { entries := acc, trailingDropped := false }
  | line :: rest, acc =>
      match J.fromStr line with
      | some e => parseLines J rest (acc ++ [e])
      | none =>
          -- the last line is dropped; any other fails the whole parse
          if rest = [] then some { entries := acc, trailingDropped := true } else none

def parseEntries (J : SerdeJson) (contents : Text) : Option ParseOutcome :=
  parseLines J ((lines contents).filter fun l => !isBlank l) []

/-- `fs::read_to_string`. -/
def readToString (fails : Bool) (disk : Disk) : Except IoErrorKind Text :=
  if fails then .error .other
  else
    match disk.file with
    | none => .error .notFound
    | some bytes =>
        match fromUtf8 bytes with
        | none => .error .invalidData
        | some contents => .ok contents

/-! ### Writing the file -/

/-- The lines of some entries. -/
def encode (J : SerdeJson) (entries : List Entry) : Text :=
  entries.flatMap fun e => J.toString e ++ ['\n']

/-- How a rewrite goes: a call before the rename may fail, or one after it.  A last write that fails
in the background is reported to no call, and is none of these. -/
inductive RewriteIo where
  | ok
  | failsBefore
  | failsAfter
  deriving DecidableEq, Repr

def rewriteTo (J : SerdeJson) (disk : Disk) (entries : List Entry) :
    RewriteIo → Except QsoQueueError Unit × Disk
  | .ok => (.ok (), { disk with file := some (utf8 (encode J entries)) })
  | .failsBefore => (.error (.io .other), disk)
  | .failsAfter => (.error (.io .other), { disk with file := some (utf8 (encode J entries)) })

/-- How the write of one line goes: the file may not open, the writes may stop after `n` bytes,
or the sync may fail.  A write of the newline that fails in the background, and that no call
reports, is none of these. -/
inductive LineIo where
  | ok
  | openFails
  | writeFails (n : Nat)
  | syncFails
  deriving DecidableEq, Repr

/-- The line of an entry, with its newline. -/
def lineBytes (J : SerdeJson) (entry : Entry) : Bytes := utf8 (J.toString entry ++ ['\n'])

/-- The other path of `append`: one line at the end of the file, which it creates if need be. -/
def appendLine (J : SerdeJson) (disk : Disk) (entry : Entry) :
    LineIo → Except QsoQueueError Unit × Disk
  | .ok => (.ok (), { disk with file := some (disk.file.getD [] ++ lineBytes J entry) })
  | .openFails => (.error (.io .other), disk)
  | .writeFails n =>
      (.error (.io .other),
        { disk with file := some (disk.file.getD [] ++ (lineBytes J entry).take n) })
  | .syncFails =>
      (.error (.io .other), { disk with file := some (disk.file.getD [] ++ lineBytes J entry) })

/-! ### The queue -/

inductive LockIo where
  | acquired
  | wouldBlock
  | fails
  deriving DecidableEq, Repr

structure OpenIo where
  createDirFails : Bool := false
  lock : LockIo := .acquired
  readFails : Bool := false
  rewrite : RewriteIo := .ok
  renameFails : Bool := false
  /-- `epoch_millis()`. -/
  now : UInt64 := 0
  deriving DecidableEq, Repr

/-- The entries `open` starts with, once it holds the lock. -/
def loadEntries (J : SerdeJson) (disk : Disk) (io : OpenIo) :
    Except QsoQueueError (List Entry) × Disk :=
  match readToString io.readFails disk with
  | .ok contents =>
      match parseEntries J contents with
      | some { entries, trailingDropped := false } => (.ok entries, disk)
      | some { entries, trailingDropped := true } =>
          let (res, disk) := rewriteTo J disk entries io.rewrite
          (res.map fun _ => entries, disk)
      | none =>
          if io.renameFails then (.error (.io .other), disk)
          else
            (.ok [], { file := none,
                       aside := (io.now, utf8 contents) :: disk.aside.filter (·.1 != io.now) })
  | .error .notFound => (.ok [], disk)
  | .error kind => (.error (.io kind), disk)

/-- The number after the largest one in the file; the addition wraps. -/
def nextSeqOf (entries : List Entry) : UInt64 :=
  match (entries.map (·.seq)).max? with
  | none => 1
  | some s => s + 1

abbrev Replay := List (UInt64 × Text)

def QsoQueue.open (J : SerdeJson) (disk : Disk) (io : OpenIo) :
    Except QsoQueueError (Inner × Replay) × Disk :=
  if io.createDirFails then (.error (.io .other), disk)
  else
    match io.lock with
    | .wouldBlock => (.error .alreadyLocked, disk)
    | .fails => (.error (.io .other), disk)
    | .acquired =>
        let (res, disk) := loadEntries J disk io
        (res.map fun entries =>
          ({ entries, nextSeq := nextSeqOf entries }, entries.map Entry.pair), disk)

structure AppendIo where
  /-- `epoch_millis()`. -/
  now : UInt64
  line : LineIo := .ok
  rewrite : RewriteIo := .ok
  deriving DecidableEq, Repr

/-- The memory `append` leaves, on whatever result. -/
def pushed (inner : Inner) (adif : Text) (now : UInt64) : Inner :=
  let entries := inner.entries ++ [{ seq := inner.nextSeq, adif, receivedAt := now }]
  { entries := entries.drop (entries.length - maxQueueLen), nextSeq := inner.nextSeq + 1 }

def QsoQueue.append (J : SerdeJson) (inner : Inner) (disk : Disk) (adif : Text) (io : AppendIo) :
    Except QsoQueueError UInt64 × Inner × Disk :=
  let seq := inner.nextSeq
  let entry : Entry := { seq, adif, receivedAt := io.now }
  -- the memory changes before the disk does
  let after := pushed inner adif io.now
  let (res, disk) :=
    if maxQueueLen < inner.entries.length + 1 then rewriteTo J disk after.entries io.rewrite
    else appendLine J disk entry io.line
  (res.map fun _ => seq, after, disk)

def QsoQueue.remove (J : SerdeJson) (inner : Inner) (disk : Disk) (seq : UInt64) (io : RewriteIo) :
    Except QsoQueueError Unit × Inner × Disk :=
  let after : Inner := { inner with entries := inner.entries.filter (·.seq != seq) }
  if after.entries.length = inner.entries.length then (.ok (), after, disk)
  else
    let (res, disk) := rewriteTo J disk after.entries io
    (res, after, disk)

end WavelogRelay.Queue
