import WavelogRelay.Library.Runs
import WavelogRelay.Poller.Dedupe
import WavelogRelay.Util
import WavelogRelay.Wavelog.Client

/-!
# Poller — the tick loop and the radio worker

`run` and `radio_worker` of `poller.rs`: two tasks, the watch channel on which the one publishes
the snapshots that the other pushes, and the shutdown channel they both watch.  `Step` is one step
of one task, from one await point to the next.  The clock is read when a snapshot is evaluated.

An attempt of a push is what it meets and whether Wavelog processes it (`Attempt`).  Wavelog may
have processed an attempt that fails, and has processed every attempt that does not, where no
redirect leads away from it (`Attempt.Sound`).
-/

namespace WavelogRelay.Poller
open Library Rig Wavelog

/-- One POST: what it meets, and whether Wavelog has processed it. -/
structure Attempt where
  met : HttpOutcome
  processed : Bool
  deriving DecidableEq, Repr

/-- Wavelog answers with success only what it has processed: no redirect has led to a success
elsewhere. -/
def Attempt.Sound (x : Attempt) : Prop := doRadioPost x.met = .ok () → x.processed = true

/-- The attempts of a push that is dropped: none has succeeded. -/
def Interrupted (attempts : List Attempt) : Prop :=
  attempts.length ≤ retrySleeps.length ∧
    ∀ x ∈ attempts, ∃ e, doRadioPost x.met = .error e ∧ isRetryable e = true

/-- A snapshot that the worker evaluates: its version on the watch channel, and when it is
evaluated. -/
structure Snapshot (F : Type) where
  version : Nat
  state : RigState F
  now : Nat

/-- Where `run` is. -/
inductive Ticker where
  | spawned
  | ticking
  | stopped
  deriving DecidableEq, Repr

/-- Where `radio_worker` is. -/
inductive Worker (F : Type) where
  | unspawned
  | spawned
  | idle
  | pushing (s : Snapshot F) (kind : PushKind)
  | stopped

structure World (F : Type) where
  shutdown : Watch Bool
  states : Watch (Option (RigState F))
  ticker : Ticker
  tickerSeen : Nat
  worker : Worker F
  workerSeen : Nat
  statesSeen : Nat
  deduper : Deduper
  clock : Nat

variable {F : Type}

def World.start : World F where
  shutdown := .new false
  states := .new none
  ticker := .spawned
  tickerSeen := 0
  worker := .unspawned
  workerSeen := 0
  statesSeen := 0
  deduper := .default
  clock := 0

/-- The latest snapshot. -/
def World.snapshot (w : World F) (state : RigState F) (now : Nat) : Snapshot F :=
  { version := w.states.version, state, now }

/-- `borrow_and_update`, and the clock. -/
def World.evaluate (w : World F) (now : Nat) : World F :=
  { w with statesSeen := w.states.version, clock := now }

/-- What a push leaves of the deduper. -/
def afterPush (R : F32 F) (d : Deduper) (s : Snapshot F) : Except WavelogError Unit → Deduper
  | .ok () => d.record R s.state s.now
  | .error _ => d

inductive Act (F : Type) where
  /-- `shutdown_tx.send(value)`. -/
  | shutdown (value : Bool)
  | senderDropped
  /-- A step of the tick loop, or of the worker, that is none of the others. -/
  | ticker
  | worker
  | published (state : RigState F)
  | skipped (s : Snapshot F)
  | started (s : Snapshot F) (kind : PushKind)
  | pushed (s : Snapshot F) (attempts : List Attempt) (res : Except WavelogError Unit)
  /-- A notification on the shutdown channel drops the push. -/
  | cancelled (s : Snapshot F) (attempts : List Attempt)

variable (R : F32 F)

inductive Step : World F → Act F → World F → Prop where
  | shutdown {w : World F} (value : Bool) :
      Step w (.shutdown value) { w with shutdown := w.shutdown.send value }
  | senderDropped {w : World F} : Step w .senderDropped { w with shutdown := w.shutdown.close }
  -- the tick loop
  | runReturns {w : World F} (ht : w.ticker = .spawned) (hs : w.shutdown.value = true) :
      Step w .ticker { w with ticker := .stopped }
  | runStarts {w : World F} (ht : w.ticker = .spawned) (hs : w.shutdown.value = false) :
      Step w .ticker
        { w with
          ticker := .ticking
          tickerSeen := w.shutdown.version
          worker := .spawned
          workerSeen := w.shutdown.version }
  | published {w : World F} (state : RigState F) (ht : w.ticker = .ticking) :
      Step w (.published state) { w with states := w.states.send (some state) }
  | pollFailed {w : World F} (ht : w.ticker = .ticking) : Step w .ticker w
  | tickerNotified {w : World F} {ok : Bool} {seen : Nat} (ht : w.ticker = .ticking)
      (hc : w.shutdown.changed w.tickerSeen = some (ok, seen)) :
      Step w .ticker
        (if shutdownObserved ok w.shutdown then
          -- the sender of the snapshots is dropped
          { w with ticker := .stopped, tickerSeen := seen, states := w.states.close }
        else { w with tickerSeen := seen })
  -- the worker
  | workerReturns {w : World F} (hw : w.worker = .spawned) (hs : w.shutdown.value = true) :
      Step w .worker { w with worker := .stopped }
  | workerStarts {w : World F} (hw : w.worker = .spawned) (hs : w.shutdown.value = false) :
      Step w .worker { w with worker := .idle, workerSeen := w.shutdown.version }
  | statesClosed {w : World F} {seen : Nat} (hw : w.worker = .idle)
      (hc : w.states.changed w.statesSeen = some (false, seen)) :
      Step w .worker { w with worker := .stopped }
  | emptied {w : World F} {seen : Nat} (hw : w.worker = .idle)
      (hc : w.states.changed w.statesSeen = some (true, seen)) (hv : w.states.value = none) :
      Step w .worker { w with statesSeen := w.states.version }
  | skipped {w : World F} {seen now : Nat} {state : RigState F} (hw : w.worker = .idle)
      (hc : w.states.changed w.statesSeen = some (true, seen)) (hv : w.states.value = some state)
      (hnow : w.clock ≤ now) (hskip : w.deduper.shouldSkip R state now = true) :
      Step w (.skipped (w.snapshot state now)) (w.evaluate now)
  | started {w : World F} {seen now : Nat} {state : RigState F} (hw : w.worker = .idle)
      (hc : w.states.changed w.statesSeen = some (true, seen)) (hv : w.states.value = some state)
      (hnow : w.clock ≤ now) (hskip : w.deduper.shouldSkip R state now = false) :
      Step w (.started (w.snapshot state now) (w.deduper.classify R state))
        { w.evaluate now with
          worker := .pushing (w.snapshot state now) (w.deduper.classify R state) }
  | pushed {w : World F} {s : Snapshot F} {kind : PushKind} {attempts : List Attempt}
      {res : Except WavelogError Unit} (hw : w.worker = .pushing s kind)
      (hsound : ∀ x ∈ attempts, x.Sound)
      (hres : pushRadio (attempts.map Attempt.met) = some res) :
      Step w (.pushed s attempts res)
        { w with worker := .idle, deduper := afterPush R w.deduper s res }
  | cancelled {w : World F} {s : Snapshot F} {kind : PushKind} {attempts : List Attempt}
      {ok : Bool} {seen : Nat} (hw : w.worker = .pushing s kind)
      (hatt : Interrupted attempts) (hc : w.shutdown.changed w.workerSeen = some (ok, seen)) :
      Step w (.cancelled s attempts)
        { w with
          worker := if shutdownObserved ok w.shutdown then .stopped else .idle
          workerSeen := seen }
  | workerNotified {w : World F} {ok : Bool} {seen : Nat} (hw : w.worker = .idle)
      (hc : w.shutdown.changed w.workerSeen = some (ok, seen)) :
      Step w .worker
        { w with
          worker := if shutdownObserved ok w.shutdown then .stopped else .idle
          workerSeen := seen }

end WavelogRelay.Poller
