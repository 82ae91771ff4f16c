import WavelogRelay.Listener.Law
import WavelogRelay.Poller.Cadence
import WavelogRelay.Poller.Worker
import WavelogRelay.Ws.Server

/-!
# Relay — the tick loop between the rig and its readers

`run` of `poller.rs` with all that it runs between: the actor of the rig and the click-to-tune
handlers, which share the actor's channel with it; the WebSocket server; and the radio worker.
`Step` is one step of one of them, from one await point to the next, or of the clock.

The loop sleeps for the cadence that it samples when the sleep starts, asks the rig for its state,
and hands the reply to the WebSocket clients and to the worker in one step.

* `listener_run`, `poller_run`, `ws_run`: seen from each part, a run is a run of it.
-/

namespace WavelogRelay.Relay
open Library
open Rig (F32 Job Reply RigError RigState)

/-! ### The state -/

/-- Where the loop of `run` is. -/
inductive Loop where
  /-- In its `select!`, with a sleep that is over at `wake`. -/
  | sleeping (wake : Duration)
  /-- In `poll`, whose request is `job`. -/
  | polling (job : Job)
  deriving DecidableEq, Repr

/-- The part of `run` before and after its loop is that of `poller`; where it is in its loop, and
when, is here. -/
structure World (κ ν F : Type) where
  listener : Listener.System κ F
  poller : Poller.World F
  ws : Ws.Server F ν
  loop : Loop
  clock : Duration

variable {κ ν F : Type}

def World.start (radio : Text) (powerMaxWatts : F) : World κ ν F where
  listener := .start
  poller := .start
  ws := .start radio powerMaxWatts
  loop := .sleeping 0
  clock := 0

/-- The top of the loop. -/
def World.sleep (w : World κ ν F) (tickInterval : Duration) : Loop :=
  .sleeping (w.clock + Poller.cadenceFor w.listener.rig.health.tx.value tickInterval)

/-- `run` has returned: its loop has ended, or not begun, and its worker has been joined. -/
def World.Returned (w : World κ ν F) : Prop :=
  w.poller.ticker = .stopped ∧ (w.poller.worker = .stopped ∨ w.poller.worker = .unspawned)

/-- The loop holds a handle of the rig until it returns, and does not drop its request. -/
def World.Allows (w : World κ ν F) : Listener.Act κ F → Prop
  | .rig (.requested _) => False
  | .rig (.abandoned job) => w.loop ≠ .polling job
  | .rig .handlesDropped => w.Returned
  | _ => True

inductive Act (κ ν F : Type) where
  | elapsed (time : Duration)
  /-- A step of the actor of the rig, or of a click-to-tune handler. -/
  | listener (a : Listener.Act κ F)
  | returned
  | started
  /-- A sleep is over, and `poll` makes the request `job`. -/
  | asked (job : Job)
  | published (job : Job) (state : RigState F) (now : UInt64)
  | failed (job : Job) (e : RigError)
  /-- A notification ends the loop. -/
  | stopped
  | notified
  | worker (a : Poller.Act F)
  | conn (c : ν) (a : Ws.ConnAct)
  /-- `shutdown_tx.send(value)`. -/
  | shutdown (value : Bool)
  | senderDropped

/-- A step of the worker. -/
def ofWorker : Poller.Act F → Prop
  | .worker | .skipped _ | .started _ _ | .pushed _ _ _ | .cancelled _ _ => True
  | .shutdown _ | .senderDropped | .ticker | .published _ => False

/-! ### Steps -/

/-- What is the same in a whole run: the `f32` and the frames, the state of the listener and its
requests, and the tick interval. -/
structure Setup (κ F : Type) where
  float : F32 F
  format : Ws.FrameFormat F
  app : Listener.AppState
  request : κ → Listener.Request
  tickInterval : Duration

variable [DecidableEq κ] [DecidableEq ν]

inductive Step (P : Setup κ F) : World κ ν F → Act κ ν F → World κ ν F → Prop where
  | elapsed {w : World κ ν F} (time : Duration) :
      Step P w (.elapsed time) { w with clock := w.clock + time }
  | listener {w : World κ ν F} {a : Listener.Act κ F} {l : Listener.System κ F}
      (h : Listener.Step P.float P.app P.request w.listener a l) (ha : w.Allows a) :
      Step P w (.listener a) { w with listener := l }
  -- `run`
  | returned {w : World κ ν F} (ht : w.poller.ticker = .spawned)
      (hs : w.poller.shutdown.value = true) :
      Step P w .returned { w with poller := { w.poller with ticker := .stopped } }
  | started {w : World κ ν F} (ht : w.poller.ticker = .spawned)
      (hs : w.poller.shutdown.value = false) :
      Step P w .started
        { w with
          poller :=
            { w.poller with
              ticker := .ticking
              tickerSeen := w.poller.shutdown.version
              worker := .spawned
              workerSeen := w.poller.shutdown.version }
          loop := w.sleep P.tickInterval }
  | asked {w : World κ ν F} {wake : Duration} {l : Listener.System κ F}
      (ht : w.poller.ticker = .ticking) (hl : w.loop = .sleeping wake) (hwake : wake ≤ w.clock)
      (h : Listener.Step P.float P.app P.request w.listener
        (.rig (.requested ⟨w.listener.rig.requests, .poll⟩)) l) :
      Step P w (.asked ⟨w.listener.rig.requests, .poll⟩)
        { w with listener := l, loop := .polling ⟨w.listener.rig.requests, .poll⟩ }
  | published {w : World κ ν F} {job : Job} {state : RigState F} (now : UInt64)
      (ht : w.poller.ticker = .ticking) (hl : w.loop = .polling job)
      (hr : (job, .ok (.state state)) ∈ w.listener.replies) :
      Step P w (.published job state now)
        { w with
          poller := { w.poller with states := w.poller.states.send (some state) }
          ws := { w.ws with handle := w.ws.handle.broadcast P.format state now }
          loop := w.sleep P.tickInterval }
  | failed {w : World κ ν F} {job : Job} {e : RigError} (ht : w.poller.ticker = .ticking)
      (hl : w.loop = .polling job) (hr : (job, .error e) ∈ w.listener.replies) :
      Step P w (.failed job e) { w with loop := w.sleep P.tickInterval }
  | stopped {w : World κ ν F} {wake : Duration} {ok : Bool} {seen : Nat}
      (ht : w.poller.ticker = .ticking) (hl : w.loop = .sleeping wake)
      (hc : w.poller.shutdown.changed w.poller.tickerSeen = some (ok, seen))
      (hobs : shutdownObserved ok w.poller.shutdown = true) :
      Step P w .stopped
        { w with
          -- the sender of the snapshots is dropped
          poller :=
            { w.poller with
              ticker := .stopped
              tickerSeen := seen
              states := w.poller.states.close } }
  | notified {w : World κ ν F} {wake : Duration} {ok : Bool} {seen : Nat}
      (ht : w.poller.ticker = .ticking) (hl : w.loop = .sleeping wake)
      (hc : w.poller.shutdown.changed w.poller.tickerSeen = some (ok, seen))
      (hobs : shutdownObserved ok w.poller.shutdown = false) :
      Step P w .notified
        { w with
          poller := { w.poller with tickerSeen := seen }
          -- the `select!` has dropped its sleep
          loop := w.sleep P.tickInterval }
  -- the others
  | worker {w : World κ ν F} {a : Poller.Act F} {q : Poller.World F}
      (h : Poller.Step P.float w.poller a q) (ha : ofWorker a) :
      Step P w (.worker a) { w with poller := q }
  | conn {w : World κ ν F} {c : ν} {a : Ws.ConnAct} {s : Ws.Server F ν}
      (h : Ws.Step P.format w.ws (.conn c a) s) : Step P w (.conn c a) { w with ws := s }
  | shutdown {w : World κ ν F} (value : Bool) :
      Step P w (.shutdown value)
        { w with
          poller := { w.poller with shutdown := w.poller.shutdown.send value }
          ws := { w.ws with shutdown := w.ws.shutdown.send value } }
  | senderDropped {w : World κ ν F} :
      Step P w .senderDropped
        { w with
          poller := { w.poller with shutdown := w.poller.shutdown.close }
          ws := { w.ws with shutdown := w.ws.shutdown.close } }

/-! ### The parts -/

/-- The step of the listener, or of the rig, that a step is. -/
def Act.toListener : Act κ ν F → Option (Listener.Act κ F)
  | .listener a => some a
  | .asked job => some (.rig (.requested job))
  | _ => none

def Act.toPoller : Act κ ν F → Option (Poller.Act F)
  | .returned | .started | .failed _ _ | .stopped | .notified => some .ticker
  | .published _ state _ => some (.published state)
  | .worker a => some a
  | .shutdown value => some (.shutdown value)
  | .senderDropped => some .senderDropped
  | _ => none

def Act.toWs : Act κ ν F → Option (Ws.Act F ν)
  | .published _ state now => some (.broadcast state now)
  | .conn c a => some (.conn c a)
  | .shutdown value => some (.shutdownSent value)
  | .senderDropped => some .shutdownDropped
  | _ => none

def toListener (tr : List (Act κ ν F)) : List (Listener.Act κ F) := tr.filterMap Act.toListener

def toRig (tr : List (Act κ ν F)) : List (Rig.Act F) :=
  (toListener tr).filterMap Listener.Act.rigAct

def toPoller (tr : List (Act κ ν F)) : List (Poller.Act F) := tr.filterMap Act.toPoller

def toWs (tr : List (Act κ ν F)) : List (Ws.Act F ν) := tr.filterMap Act.toWs

variable {P : Setup κ F} {C : World κ ν F → Act κ ν F → Prop} {w₀ w w' : World κ ν F}
  {tr : List (Act κ ν F)} {a : Act κ ν F}

omit [DecidableEq ν] in
/-- A step of the rig that gives up no request is one of the listener. -/
theorem listen_of_rig {l : Listener.System κ F} {r : Rig.Act F} {x : Rig.World F}
    (hs : Rig.Step P.float l.rig r x) (hr : r.abandonment = none) :
    Listener.Step P.float P.app P.request l (.rig r)
      { l with
        rig := x
        record := l.record ++ (Rig.entry l.rig r).toList
        replies := l.replies ++ r.answer.toList } :=
  .rig hs fun job h => by
    rw [h] at hr
    cases hr

theorem Step.of_rig {r : Rig.Act F} {x : Rig.World F}
    (hs : Rig.Step P.float w.listener.rig r x) (hr : r.abandonment = none)
    (ha : w.Allows (.rig r)) :
    Step P w (.listener (.rig r))
      { w with
        listener :=
          { w.listener with
            rig := x
            record := w.listener.record ++ (Rig.entry w.listener.rig r).toList
            replies := w.listener.replies ++ r.answer.toList } } :=
  .listener (listen_of_rig hs hr) ha

theorem Step.toListener {b : Listener.Act κ F} (h : Step P w a w') (ha : a.toListener = some b) :
    Listener.Step P.float P.app P.request w.listener b w'.listener := by
  cases h <;> cases ha
  case listener h ha => exact h
  case asked h => exact h

theorem Step.toPoller {b : Poller.Act F} (h : Step P w a w') (ha : a.toPoller = some b) :
    Poller.Step P.float w.poller b w'.poller := by
  cases h <;> cases ha
  case returned ht hs => exact .runReturns ht hs
  case started ht hs => exact .runStarts ht hs
  case published ht hl hr => exact .published _ ht
  case failed ht hl hr => exact .pollFailed ht
  case stopped ht hl hc hobs =>
    have h := Poller.Step.tickerNotified (R := P.float) ht hc
    rwa [if_pos hobs] at h
  case notified ht hl hc hobs =>
    have h := Poller.Step.tickerNotified (R := P.float) ht hc
    rwa [if_neg (Bool.not_eq_true _ ▸ hobs)] at h
  case worker h ha => exact h
  case shutdown value => exact .shutdown value
  case senderDropped => exact .senderDropped

theorem Step.toWs {b : Ws.Act F ν} (h : Step P w a w') (ha : a.toWs = some b) :
    Ws.Step P.format w.ws b w'.ws := by
  cases h <;> cases ha
  case published now ht hl hr => exact .broadcast _ now
  case conn h => exact h
  case shutdown value => exact .shutdownSent value
  case senderDropped => exact .shutdownDropped

theorem Step.listener_eq (h : Step P w a w') (ha : a.toListener = none) :
    w'.listener = w.listener := by
  cases h <;> first | rfl | cases ha

theorem Step.poller_eq (h : Step P w a w') (ha : a.toPoller = none) : w'.poller = w.poller := by
  cases h <;> first | rfl | cases ha

theorem Step.ws_eq (h : Step P w a w') (ha : a.toWs = none) : w'.ws = w.ws := by
  cases h <;> first | rfl | cases ha

/-- **Seen from the listener and the rig**, a run is a run of theirs. -/
theorem listener_run (h : Run (Step P) C w₀ tr w) :
    Run (Listener.Step P.float P.app P.request) Always w₀.listener (toListener tr) w.listener :=
  h.simulate World.listener Act.toListener (fun hs ha => hs.listener_eq ha)
    fun _ hs ha => ⟨trivial, hs.toListener ha⟩

theorem poller_run (h : Run (Step P) C w₀ tr w) :
    Run (Poller.Step P.float) Always w₀.poller (toPoller tr) w.poller :=
  h.simulate World.poller Act.toPoller (fun hs ha => hs.poller_eq ha)
    fun _ hs ha => ⟨trivial, hs.toPoller ha⟩

theorem ws_run (h : Run (Step P) C w₀ tr w) :
    Run (Ws.Step P.format) Always w₀.ws (toWs tr) w.ws :=
  h.simulate World.ws Act.toWs (fun hs ha => hs.ws_eq ha) fun _ hs ha => ⟨trivial, hs.toWs ha⟩

omit [DecidableEq ν] in
theorem rigStep {l l' : Listener.System κ F} {b : Listener.Act κ F} {r : Rig.Act F}
    (h : Listener.Step P.float P.app P.request l b l') (hb : b.rigAct = some r) :
    Rig.Step P.float l.rig r l'.rig := by
  cases h <;> cases hb
  case dispatched hc ht hh => exact .requested _ hh
  case rig hs ha => exact hs

theorem rig_run (h : Run (Step P) C w₀ tr w) :
    Run (Rig.Step P.float) Always w₀.listener.rig (toRig tr) w.listener.rig := by
  refine (listener_run h).simulate Listener.System.rig Listener.Act.rigAct ?_
    fun _ hs hb => ⟨trivial, rigStep hs hb⟩
  intro l b l' hs hb
  cases hs with
  | refused | resumed | dropped => rfl
  | dispatched | rig => cases hb

/-! ### The loop -/

/-- Only a loop that runs polls. -/
def World.LoopRuns (w : World κ ν F) : Prop :=
  ∀ job, w.loop = .polling job → w.poller.ticker = .ticking

omit [DecidableEq κ] [DecidableEq ν] in
theorem ticker_of_worker {R : F32 F} {q q' : Poller.World F} {a : Poller.Act F}
    (h : Poller.Step R q a q') (ha : ofWorker a) : q'.ticker = q.ticker := by
  cases h with
  | shutdown | senderDropped | runReturns | runStarts | published | pollFailed => exact ha.elim
  | tickerNotified => exact ha.elim
  | _ => rfl

theorem World.LoopRuns.step (h : w.LoopRuns) (hs : Step P w a w') : w'.LoopRuns := by
  intro job hj
  cases hs with
  | returned ht => cases ht.symm.trans (h job hj)
  | started | published | failed | notified => cases hj
  | asked ht => exact ht
  | stopped ht hl => cases hl.symm.trans hj
  | worker hs ha => exact (ticker_of_worker hs ha).trans (h job hj)
  | elapsed | listener | conn | shutdown | senderDropped => exact h job hj

end WavelogRelay.Relay
