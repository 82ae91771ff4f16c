import WavelogRelay.Relay.Model
import WavelogRelay.Ws.Rest

/-!
# Relay — who watches the shutdown channel

Each task that watches the channel looks at it once before its loop, and from then on waits for
the versions that it has not seen.

* `Attends`, for each of the parts: a task that goes on has not been asked to stop by what it has
  seen.
* `Up`, for each of the parts: without a request to stop, no task of it ends.
-/

namespace WavelogRelay
open Library

/-! ### The poller -/

namespace Poller
open Rig (F32)

variable {F : Type}

/-- The worker is at one of its selects. -/
def Worker.Watches : Worker F → Prop
  | .idle | .pushing _ _ => True
  | .unspawned | .spawned | .stopped => False

structure World.Attends (w : World F) : Prop where
  ticker : w.ticker = .ticking → Awake w.shutdown w.tickerSeen
  worker : w.worker.Watches → Awake w.shutdown w.workerSeen

/-- The worker goes on after a notification only if that does not ask it to stop. -/
theorem awake_of_notified {shutdown : Watch Bool} {seen seen' : Nat} {ok : Bool}
    (hc : shutdown.changed seen = some (ok, seen'))
    (hw : (if shutdownObserved ok shutdown then .stopped else .idle : Worker F).Watches) :
    Awake shutdown seen' := by
  split at hw
  · exact hw.elim
  · rename_i hobs
    exact .told hc (Bool.not_eq_true _ ▸ hobs)

theorem World.Attends.step {R : F32 F} {w w' : World F} {a : Act F} (h : w.Attends)
    (hs : Step R w a w') : w'.Attends := by
  obtain ⟨ht, hw⟩ := h
  cases hs with
  | shutdown value => exact ⟨fun h => (ht h).send value, fun h => (hw h).send value⟩
  | senderDropped => exact ⟨fun h => (ht h).close, fun h => (hw h).close⟩
  | runReturns => exact ⟨nofun, hw⟩
  | runStarts _ hs => exact ⟨fun _ => .borrow hs, nofun⟩
  | published => exact ⟨ht, hw⟩
  | pollFailed => exact ⟨ht, hw⟩
  | tickerNotified _ hc =>
      split
      · exact ⟨nofun, hw⟩
      · rename_i hobs
        exact ⟨fun _ => .told hc (Bool.not_eq_true _ ▸ hobs), hw⟩
  | workerReturns => exact ⟨ht, nofun⟩
  | workerStarts _ hs => exact ⟨ht, fun _ => .borrow hs⟩
  | statesClosed => exact ⟨ht, nofun⟩
  | emptied => exact ⟨ht, hw⟩
  | skipped => exact ⟨ht, hw⟩
  | started hidle => exact ⟨ht, fun _ => hw (hidle ▸ trivial)⟩
  | pushed hpush => exact ⟨ht, fun _ => hw (hpush ▸ trivial)⟩
  | cancelled _ _ hc => exact ⟨ht, awake_of_notified hc⟩
  | workerNotified _ hc => exact ⟨ht, awake_of_notified hc⟩

structure World.Up (w : World F) : Prop where
  ticker : w.ticker ≠ .stopped
  worker : w.worker ≠ .stopped
  states : w.states.closed = false

theorem World.Up.step {R : F32 F} {w w' : World F} {a : Act F} (h : w.Up)
    (hu : Unasked w.shutdown) (hs : Step R w a w') : w'.Up := by
  obtain ⟨ht, hw, hst⟩ := h
  cases hs with
  | shutdown | senderDropped => exact ⟨ht, hw, hst⟩
  | runReturns _ hv | workerReturns _ hv => exact absurd (hu.value.symm.trans hv) nofun
  | runStarts => exact ⟨nofun, nofun, hst⟩
  | published | pollFailed => exact ⟨ht, hw, hst⟩
  | tickerNotified _ hc =>
      rw [if_neg (by simp [(hu.not_observed hc).2])]
      exact ⟨ht, hw, hst⟩
  | workerStarts => exact ⟨ht, nofun, hst⟩
  | statesClosed _ hc => exact absurd (hst.symm.trans ((Watch.changed_spec hc).2.1 rfl).2) nofun
  | emptied | skipped => exact ⟨ht, hw, hst⟩
  | started => exact ⟨ht, nofun, hst⟩
  | pushed => exact ⟨ht, nofun, hst⟩
  | cancelled _ _ hc | workerNotified _ hc =>
      rw [if_neg (by simp [(hu.not_observed hc).2])]
      exact ⟨ht, nofun, hst⟩

end Poller

/-! ### The relay -/

namespace Relay

variable {κ ν F : Type}

structure World.Attends (w : World κ ν F) : Prop where
  one : w.ws.shutdown = w.poller.shutdown
  poller : w.poller.Attends
  ws : w.ws.Attends

theorem World.Attends.start {radio : Text} {powerMaxWatts : F} :
    (World.start radio powerMaxWatts : World κ ν F).Attends :=
  ⟨rfl, ⟨nofun, nofun⟩, fun _ _ h => by cases h⟩

/-- Neither a value nor the end of the channel. -/
def Act.Quiet : Act κ ν F → Prop
  | .shutdown _ | .senderDropped => False
  | _ => True

omit κ in
theorem shutdown_of_worker {R : Rig.F32 F} {q q' : Poller.World F} {a : Poller.Act F}
    (h : Poller.Step R q a q') (ha : ofWorker a) : q'.shutdown = q.shutdown := by
  cases h with
  | shutdown | senderDropped | runReturns | runStarts | published | pollFailed => exact ha.elim
  | tickerNotified => exact ha.elim
  | _ => rfl

variable [DecidableEq κ] [DecidableEq ν] {P : Setup κ F} {w w' : World κ ν F} {a : Act κ ν F}

theorem shutdown_of_step (hs : Step P w a w') (ha : a.Quiet) :
    w'.poller.shutdown = w.poller.shutdown := by
  cases hs with
  | shutdown | senderDropped => exact ha.elim
  | worker hs hw => exact shutdown_of_worker hs hw
  | _ => rfl

theorem World.Attends.step (h : w.Attends) (hs : Step P w a w') : w'.Attends := by
  refine ⟨?_, ?_, ?_⟩
  · cases hs with
    | worker hs ha => exact h.one.trans (shutdown_of_worker hs ha).symm
    | conn hs => cases hs with | conn => exact h.one
    | shutdown value => exact congrArg (·.send value) h.one
    | senderDropped => exact congrArg Watch.close h.one
    | _ => exact h.one
  · cases ha : a.toPoller with
    | none => exact hs.poller_eq ha ▸ h.poller
    | some b => exact h.poller.step (hs.toPoller ha)
  · cases ha : a.toWs with
    | none => exact hs.ws_eq ha ▸ h.ws
    | some b => exact h.ws.step (hs.toWs ha)

structure World.Up (w : World κ ν F) : Prop where
  poller : w.poller.Up
  handles : w.listener.rig.handles = true

omit [DecidableEq κ] [DecidableEq ν] in
theorem World.Up.start {radio : Text} {powerMaxWatts : F} :
    (World.start radio powerMaxWatts : World κ ν F).Up := ⟨⟨nofun, nofun, rfl⟩, rfl⟩

omit [DecidableEq ν] in
theorem handles_of_listen {l l' : Listener.System κ F} {b : Listener.Act κ F}
    (hs : Listener.Step P.float P.app P.request l b l') (hb : b ≠ .rig .handlesDropped) :
    l'.rig.handles = l.rig.handles := by
  cases hs with
  | refused | dispatched | resumed | dropped => rfl
  | rig hs =>
      cases hs with
      | handlesDropped => exact absurd rfl hb
      | _ => rfl

theorem World.Up.step (h : w.Up) (hu : Unasked w.poller.shutdown) (hs : Step P w a w') :
    w'.Up := by
  refine ⟨?_, ?_⟩
  · cases ha : a.toPoller with
    | none => exact hs.poller_eq ha ▸ h.poller
    | some b => exact h.poller.step hu (hs.toPoller ha)
  · cases hs with
    | listener hs ha =>
        refine (handles_of_listen hs ?_).trans h.handles
        rintro rfl
        exact h.poller.ticker ha.1
    | asked ht hl hwake hs => exact (handles_of_listen hs nofun).trans h.handles
    | _ => exact h.handles

end Relay

end WavelogRelay
