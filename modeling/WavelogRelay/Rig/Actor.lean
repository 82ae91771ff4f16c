import WavelogRelay.Library.Runs
import WavelogRelay.Library.Watch
import WavelogRelay.Rig.Protocol

/-!
# Rig — the actor and its clients

`RigActor`, the channel it is sent commands on and any number of clients, each of which makes
requests through a `RigHandle`.  `Step` is one step of one of them, from one await point to the
next.  What the network does is part of the act.

A request is waiting for room in the channel (`waiting`), in the channel (`chan`) or being carried
out (`Phase.running`), until it is answered.
-/

namespace WavelogRelay.Rig
open Library Dialogue

/-- `saturating_add(1)`, up to `max`. -/
def satSucc (max n : Nat) : Nat := min (n + 1) max

/-! ### Health -/

inductive DegradedKind where
  | unreachable
  | unresponsive
  deriving DecidableEq, Repr

inductive HealthState where
  | healthy
  | degraded (kind : DegradedKind) (failures : Nat)
  deriving DecidableEq, Repr

structure Health where
  state : HealthState
  tx : Watch HealthState
  deriving DecidableEq, Repr

def Health.new : Health := { state := .healthy, tx := .new .healthy }

def Health.publish (h : Health) (state : HealthState) : Health := { state, tx := h.tx.send state }

/-- The failures that a failure of `kind` makes, with those before it. -/
def nextFailures : HealthState → DegradedKind → Nat
  | .degraded prior failures, kind => if prior = kind then satSucc 0xffffffff failures else 1
  | .healthy, _ => 1

def Health.recordFailure (h : Health) (kind : DegradedKind) : Nat × Health :=
  let failures := nextFailures h.state kind
  (failures, h.publish (.degraded kind failures))

def Health.recordSuccess (h : Health) : Bool × Health :=
  match h.state with
  | .degraded .. => (true, h.publish .healthy)
  | .healthy => (false, h)

/-- `BACKOFF`, in milliseconds. -/
def backoff : List Nat := [500, 1000, 2000, 5000, 10000]

def backoffDelay (idx : Nat) : Nat := backoff.getD (min idx (backoff.length - 1)) 0

/-! ### The state -/

/-- The capacity of the channel. -/
def channelCapacity : Nat := 8

/-- A request: its number and its command. -/
structure Job where
  id : Nat
  cmd : RigCommand
  deriving DecidableEq, Repr

/-- Where `RigActor::run` is. -/
inductive Phase (F : Type) where
  | connecting
  | serving (conn : Nat)
  /-- In `handle_command`: `rest` is what is left of it. -/
  | running (conn : Nat) (job : Job) (rest : Wire (Except RigError (Reply F)))
  | sleeping (delay : Nat)
  | stopped

structure World (F : Type) where
  /-- The number of requests made. -/
  requests : Nat
  /-- Whether a `RigHandle` is left. -/
  handles : Bool
  waiting : List Job
  chan : List Job
  /-- The number of connections made. -/
  conns : Nat
  phase : Phase F
  backoffIdx : Nat
  health : Health

variable {F : Type}

def World.spawn : World F where
  requests := 0
  handles := true
  waiting := []
  chan := []
  conns := 0
  phase := .connecting
  backoffIdx := 0
  health := .new

/-- The request that is being carried out. -/
def Phase.jobs : Phase F → List Job
  | .running _ job _ => [job]
  | _ => []

/-- The requests without an answer. -/
def World.pending (w : World F) : List Job := w.waiting ++ w.chan ++ w.phase.jobs

/-- `record_and_log_failure`, then the sleep of `run`. -/
def World.failed (w : World F) (kind : DegradedKind) : World F :=
  { w with
    phase := .sleeping (backoffDelay w.backoffIdx)
    backoffIdx := satSucc 0xffffffffffffffff w.backoffIdx
    health := (w.health.recordFailure kind).2 }

inductive Act (F : Type) where
  | requested (job : Job)
  /-- A request is dropped before it is in the channel. -/
  | abandoned (job : Job)
  | sent (job : Job)
  | handlesDropped
  | connected (conn : Nat)
  | connectFailed
  | received (conn : Nat) (job : Job)
  | wire (conn : Nat) (event : WireEvent)
  | served (conn : Nat) (job : Job) (res : Except RigError (Reply F))
  /-- An I/O error ends the command and the connection. -/
  | lost (conn : Nat) (job : Job) (e : IoError)
  /-- `fail_command`, in `sleep_draining`. -/
  | drained (job : Job)
  /-- A sleep of `delay` is over. -/
  | woke (delay : Nat)
  | stopped

variable (R : F32 F)

inductive Step : World F → Act F → World F → Prop where
  -- the clients
  | requested {w : World F} (cmd : RigCommand) (hh : w.handles = true) :
      Step w (.requested ⟨w.requests, cmd⟩)
        { w with requests := w.requests + 1, waiting := w.waiting ++ [⟨w.requests, cmd⟩] }
  | abandoned {w : World F} {l r : List Job} {job : Job} (hw : w.waiting = l ++ job :: r) :
      Step w (.abandoned job) { w with waiting := l ++ r }
  | sent {w : World F} {l r : List Job} {job : Job} (hw : w.waiting = l ++ job :: r)
      (hroom : w.chan.length < channelCapacity) :
      Step w (.sent job) { w with waiting := l ++ r, chan := w.chan ++ [job] }
  -- a request that waits for room holds its handle
  | handlesDropped {w : World F} (hh : w.handles = true) (hw : w.waiting = []) :
      Step w .handlesDropped { w with handles := false }
  -- the actor
  | connected {w : World F} (hp : w.phase = .connecting) :
      Step w (.connected w.conns)
        { w with conns := w.conns + 1, phase := .serving w.conns, backoffIdx := 0 }
  | connectFailed {w : World F} (hp : w.phase = .connecting) :
      Step w .connectFailed (w.failed .unreachable)
  | received {w : World F} {conn : Nat} {job : Job} {rest : List Job}
      (hp : w.phase = .serving conn) (hchan : w.chan = job :: rest) :
      Step w (.received conn job)
        { w with chan := rest, phase := .running conn job (handleCommand R job.cmd) }
  | wire {w : World F} {conn : Nat} {job : Job} {q : Ask}
      {k : Answer q → Wire (Except RigError (Reply F))}
      (hp : w.phase = .running conn job (.ask q k)) (a : Answer q) :
      Step w (.wire conn ⟨q, a⟩) { w with phase := .running conn job (k a) }
  | served {w : World F} {conn : Nat} {job : Job} {res : Except RigError (Reply F)}
      (hp : w.phase = .running conn job (.done (.ok res))) :
      Step w (.served conn job res)
        { w with phase := .serving conn, health := w.health.recordSuccess.2 }
  | lost {w : World F} {conn : Nat} {job : Job} {e : IoError}
      (hp : w.phase = .running conn job (.done (.error e))) :
      Step w (.lost conn job e) (w.failed .unresponsive)
  | drained {w : World F} {delay : Nat} {job : Job} {rest : List Job}
      (hp : w.phase = .sleeping delay) (hchan : w.chan = job :: rest) :
      Step w (.drained job) { w with chan := rest }
  | woke {w : World F} {delay : Nat} (hp : w.phase = .sleeping delay) :
      Step w (.woke delay) { w with phase := .connecting }
  | stoppedServing {w : World F} {conn : Nat} (hp : w.phase = .serving conn) (hchan : w.chan = [])
      (hh : w.handles = false) : Step w .stopped { w with phase := .stopped }
  | stoppedSleeping {w : World F} {delay : Nat} (hp : w.phase = .sleeping delay)
      (hchan : w.chan = []) (hh : w.handles = false) :
      Step w .stopped { w with phase := .stopped }

end WavelogRelay.Rig
