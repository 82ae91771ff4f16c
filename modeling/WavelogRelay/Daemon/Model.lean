import WavelogRelay.Relay.Model
import WavelogRelay.Wsjtx.Unasked

/-!
# Daemon — `run_daemon`

`run_daemon` of `main.rs` from its first spawn on: the tick loop and its worker, the rig's actor,
the HTTP listener and the WebSocket server, the WSJT-X listener and its worker, and what
`run_daemon` itself does, which is to open the queue, to wait for a signal, to send it on the
shutdown channel and to join the tasks, one after another.  `Step` is one step of one of them.

A server returns once its `wait_for_shutdown` has resolved and no handler of it is left.  The tasks
of WebSocket connections are nobody's to join.  A panic aborts the process.  The model ends where
`run_daemon` does: what the runtime does to the tasks left over is not in it.

* `relay_run`, `pipeline_run`: seen from the relay, and from the pipeline, a run is a run of it.
-/

namespace WavelogRelay.Daemon
open Library
open Queue (Disk OpenIo QsoQueueError Replay SerdeJson)
open Wavelog (WavelogJson)
open Wsjtx (SameProcess)

/-! ### The state -/

/-- `serve`: `axum::serve` with a `wait_for_shutdown` for its graceful shutdown.  That is taken to
wait for handlers only.  `axum` waits as well for a connection on which half a request has arrived,
until its client sends the rest or goes. -/
inductive Serve where
  | serving (shutdown : Waiter)
  | returned
  deriving DecidableEq, Repr

/-- A step of a server.  `Drained` says that no handler is left. -/
inductive Serve.Step (shutdown : Watch Bool) (Drained : Prop) : Serve → Serve → Prop where
  | notified {x x' : Waiter} (h : Waiter.Step shutdown x x') :
      Step shutdown Drained (.serving x) (.serving x')
  | returned (h : Drained) : Step shutdown Drained (.serving .resolved) .returned

/-- The tasks that `run_daemon` joins, in its order. -/
inductive Task where
  | poller
  | listener
  | ws
  | wsjtxListener
  | wsjtxWorker
  | rig
  deriving DecidableEq, Repr

/-- Where `run_daemon` is. -/
inductive Main where
  /-- In `QsoQueue::open`, with the tasks before it spawned.  `WavelogClient::new` before them,
  after the spawn of the rig's actor, is taken to have succeeded. -/
  | opening
  /-- In `wait_for_signal`. -/
  | waiting
  | joining (task : Task)
  | returned
  | failed (e : QsoQueueError)
  /-- A panic has aborted the process. -/
  | aborted
  deriving DecidableEq, Repr

def Main.Runs : Main → Prop
  | .opening | .waiting | .joining _ => True
  | .returned | .failed _ | .aborted => False

/-- The signal has come, and has been sent on. -/
def Main.Asked : Main → Prop
  | .joining _ | .returned => True
  | .opening | .waiting | .failed _ | .aborted => False

/-- Where `run_daemon` goes when it has joined a task. -/
def Task.next : Task → Main
  | .poller => .joining .listener
  | .listener => .joining .ws
  | .ws => .joining .wsjtxListener
  | .wsjtxListener => .joining .wsjtxWorker
  | .wsjtxWorker => .joining .rig
  | .rig => .returned

/-- A server, or a task of the pipeline, that is not configured is not spawned, and has ended. -/
structure World (κ ν F : Type) where
  relay : Relay.World κ ν F
  pipeline : Wsjtx.World
  http : Serve
  ws : Serve
  main : Main

/-- What is the same in a whole run. -/
structure Setup (κ F : Type) extends Relay.Setup κ F where
  serde : SerdeJson
  wavelog : WavelogJson
  radio : Text
  powerMaxWatts : F
  noWs : Bool
  wsjtx : Bool

variable {κ ν F : Type}

def World.start (P : Setup κ F) (disk : Disk) : World κ ν F where
  relay := .start P.radio P.powerMaxWatts
  pipeline := ⟨disk, none⟩
  http := .serving .spawned
  ws := if P.noWs then .returned else .serving .spawned
  main := if P.wsjtx then .opening else .waiting

/-- The shutdown channel, of which the parts hold receivers. -/
def World.shutdown (w : World κ ν F) : Watch Bool := w.relay.poller.shutdown

/-- `shutdown_tx.send(true)`. -/
def World.sendTrue (w : World κ ν F) : World κ ν F :=
  { w with
    relay :=
      { w.relay with
        poller := { w.relay.poller with shutdown := w.relay.poller.shutdown.send true }
        ws := { w.relay.ws with shutdown := w.relay.ws.shutdown.send true } }
    pipeline :=
      { w.pipeline with
        proc := w.pipeline.proc.map fun p => { p with shutdown := p.shutdown.send true } } }

def World.Ended (w : World κ ν F) : Task → Prop
  | .poller => w.relay.Returned
  | .listener => w.http = .returned
  | .ws => w.ws = .returned
  | .wsjtxListener => ∀ p, w.pipeline.proc = some p → p.listener = .stopped
  | .wsjtxWorker => ∀ p, w.pipeline.proc = some p → p.worker = .stopped
  | .rig => w.relay.listener.rig.phase = .stopped

/-- No click-to-tune handler waits for the rig. -/
def World.Drained (w : World κ ν F) : Prop := ∀ c job, w.relay.listener.stage c ≠ .setting job

/-- A server has handlers from when it starts to when it returns, and those of the HTTP listener
hold handles of the rig.  The shutdown channel is for `run_daemon` to send on. -/
def World.Allows (P : Setup κ F) (w : World κ ν F) : Relay.Act κ ν F → Prop
  | .shutdown _ | .senderDropped => False
  | .listener (.refused _ _) | .listener (.dispatched _ _) =>
      w.http ≠ .serving .spawned ∧ w.http ≠ .returned
  | .listener (.rig .handlesDropped) => w.http = .returned
  | .conn _ _ => P.noWs = false ∧ w.ws ≠ .serving .spawned
  | _ => True

inductive Act (κ ν F : Type) where
  | opened (io : OpenIo) (replay : Replay)
  | openFailed (io : OpenIo) (e : QsoQueueError)
  /-- SIGTERM or SIGINT. -/
  | signal
  | joined (task : Task)
  | aborted
  | relay (a : Relay.Act κ ν F)
  | http
  | ws
  | pipeline (a : Wsjtx.Act)

/-! ### Steps -/

variable [DecidableEq κ] [DecidableEq ν] (P : Setup κ F)

inductive Step : World κ ν F → Act κ ν F → World κ ν F → Prop where
  -- `run_daemon`
  | opened {w : World κ ν F} {io : OpenIo} {replay : Replay} {p : Wsjtx.World}
      (hm : w.main = .opening)
      (h : Wsjtx.Step P.serde P.wavelog w.pipeline (.opened io replay) p) :
      Step w (.opened io replay) { w with pipeline := p, main := .waiting }
  | openFailed {w : World κ ν F} {io : OpenIo} {e : QsoQueueError} {p : Wsjtx.World}
      (hm : w.main = .opening)
      (h : Wsjtx.Step P.serde P.wavelog w.pipeline (.openFailed io e) p) :
      Step w (.openFailed io e) { w with pipeline := p, main := .failed e }
  | signal {w : World κ ν F} (hm : w.main = .waiting) :
      Step w .signal { w.sendTrue with main := .joining .poller }
  | joined {w : World κ ν F} {task : Task} (hm : w.main = .joining task) (ht : w.Ended task) :
      Step w (.joined task) { w with main := task.next }
  -- the tasks
  | aborted {w : World κ ν F} {p : Wsjtx.World} (hm : w.main.Runs)
      (h : Wsjtx.Step P.serde P.wavelog w.pipeline .aborted p) :
      Step w .aborted { w with pipeline := p, main := .aborted }
  | relay {w : World κ ν F} {a : Relay.Act κ ν F} {r : Relay.World κ ν F} (hm : w.main.Runs)
      (h : Relay.Step P.toSetup w.relay a r) (ha : w.Allows P a) :
      Step w (.relay a) { w with relay := r }
  | http {w : World κ ν F} {x : Serve} (hm : w.main.Runs)
      (h : Serve.Step w.shutdown w.Drained w.http x) : Step w .http { w with http := x }
  -- a connection of the WebSocket server is upgraded, and no longer a handler
  | ws {w : World κ ν F} {x : Serve} (hm : w.main.Runs)
      (h : Serve.Step w.shutdown True w.ws x) : Step w .ws { w with ws := x }
  -- a datagram that is ignored is no step
  | pipeline {w : World κ ν F} {a : Wsjtx.Act} {p : Wsjtx.World} (hm : w.main.Runs)
      (h : Wsjtx.Step P.serde P.wavelog w.pipeline a p) (ha : a.isUpdate = false)
      (hsame : SameProcess a) (hproc : p.proc.isSome) (hne : p ≠ w.pipeline) :
      Step w (.pipeline a) { w with pipeline := p }

/-! ### The parts -/

/-- The step of the relay that a step is. -/
def Act.toRelay : Act κ ν F → Option (Relay.Act κ ν F)
  | .relay a => some a
  | .signal => some (.shutdown true)
  | _ => none

def toRelay (tr : List (Act κ ν F)) : List (Relay.Act κ ν F) := tr.filterMap Act.toRelay

variable {P} {C : World κ ν F → Act κ ν F → Prop} {w₀ w w' : World κ ν F}
  {tr : List (Act κ ν F)} {a : Act κ ν F}

/-- **Seen from the relay**, a run is a run of it. -/
theorem relay_run (h : Run (Step P) C w₀ tr w) :
    Run (Relay.Step P.toSetup) Always w₀.relay (toRelay tr) w.relay := by
  refine h.simulate World.relay Act.toRelay ?_ ?_
  · intro w a w' hs ha
    cases hs <;> first | rfl | cases ha
  · intro w a w' b _ hs ha
    cases hs with
    | signal hm =>
        cases ha
        exact ⟨trivial, .shutdown true⟩
    | relay hm h =>
        cases ha
        exact ⟨trivial, h⟩
    | opened | openFailed | joined | aborted | http | ws | pipeline => cases ha

/-- Seen from the pipeline, a step is a step of it or nothing. -/
theorem Step.pipeline_step (hs : Step P w a w') :
    w'.pipeline = w.pipeline ∨
      ∃ b, Wsjtx.Step P.serde P.wavelog w.pipeline b w'.pipeline := by
  cases hs with
  | opened hm h | openFailed hm h | aborted hm h => exact .inr ⟨_, h⟩
  | pipeline hm h => exact .inr ⟨_, h⟩
  | signal hm =>
      obtain ⟨relay, ⟨disk, _ | p⟩, http, ws, main⟩ := w
      · exact .inl rfl
      · exact .inr ⟨_, .shutdown true⟩
  | joined | relay | http | ws => exact .inl rfl

/-- **Seen from the pipeline**, a run is a run of it. -/
theorem pipeline_run (h : Run (Step P) C w₀ tr w) :
    ∃ tr', Run (Wsjtx.Step P.serde P.wavelog) Always w₀.pipeline tr' w.pipeline := by
  induction h with
  | nil => exact ⟨[], .nil⟩
  | snoc h hC hs ih =>
      obtain ⟨tr', ih⟩ := ih
      rcases hs.pipeline_step with heq | ⟨b, hb⟩
      · exact ⟨tr', heq ▸ ih⟩
      · exact ⟨_, ih.extend hb trivial⟩

end WavelogRelay.Daemon
