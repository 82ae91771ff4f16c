import WavelogRelay.Daemon.Model
import WavelogRelay.Relay.Awake

/-!
# Daemon — who watches the shutdown channel

Each task that watches the channel looks at it once before its loop, and from then on waits for
the versions that it has not seen.

* `Attends`, for each of the parts: a task that goes on has not been asked to stop by what it has
  seen.
* `Up`, for each of the parts: without a request to stop, no task of it ends.
-/

namespace WavelogRelay
open Library

/-! ### Servers -/

namespace Daemon

/-- What the server waits on. -/
def Serve.Attends (shutdown : Watch Bool) : Serve → Prop
  | .serving x => x.Awake shutdown
  | .returned => True

theorem Serve.Attends.step {shutdown : Watch Bool} {Drained : Prop} {x x' : Serve}
    (h : Serve.Step shutdown Drained x x') : x'.Attends shutdown := by
  cases h with
  | notified h => exact Waiter.Awake.step h
  | returned => trivial

theorem Serve.Attends.send {shutdown : Watch Bool} {x : Serve} (h : x.Attends shutdown)
    (value : Bool) : x.Attends (shutdown.send value) := by
  rcases x with (_ | seen | _) | _
  · trivial
  · exact Watch.Follows.send h value
  · trivial
  · trivial

/-- The server runs, and its future has not resolved. -/
def Serve.Up : Serve → Prop
  | .serving x => x ≠ .resolved
  | .returned => False

theorem Serve.Up.ne_returned {x : Serve} (h : x.Up) : x ≠ .returned := by
  rintro rfl
  exact h

theorem Serve.Up.step {shutdown : Watch Bool} {Drained : Prop} {x x' : Serve} (h : x.Up)
    (hu : Unasked shutdown) (hs : Serve.Step shutdown Drained x x') : x'.Up := by
  cases hs with
  | notified hs =>
      cases hs with
      | returns hv => exact absurd (hu.value.symm.trans hv) nofun
      | waits => exact nofun
      | notified hc =>
          rw [if_neg (by simp [(hu.not_observed hc).2])]
          exact nofun
  | returned => exact (h rfl).elim

end Daemon

/-! ### The pipeline -/

namespace Wsjtx
open Queue (Disk SerdeJson)
open Wavelog (WavelogJson)

/-- The listener has looked at the channel, and goes on. -/
def Listener.Watches : Listener → Prop
  | .spawned _ | .stopped => False
  | .replaying _ | .receiving | .appending _ | .sending _ => True

def Worker.Watches : Worker → Prop
  | .spawned | .stopped => False
  | .idle | .pushing _ | .finishing _ _ | .removing _ => True

structure Proc.Attends (p : Proc) : Prop where
  listener : p.listener.Watches → Awake p.shutdown p.listenerSeen
  worker : p.worker.Watches → Awake p.shutdown p.workerSeen

theorem Proc.Attends.spawn {inner : Queue.Inner} {replay : Queue.Replay} :
    (Proc.spawn inner replay).Attends := ⟨nofun, nofun⟩

variable {J : SerdeJson} {W : WavelogJson} {disk disk' : Disk} {p p' : Proc} {a : Act}

theorem Proc.Attends.step (h : p.Attends) (hs : Step J W ⟨disk, some p⟩ a ⟨disk', some p'⟩) :
    p'.Attends := by
  obtain ⟨hl, hw⟩ := h
  cases hs with
  | shutdown value => exact ⟨fun h => (hl h).send value, fun h => (hw h).send value⟩
  | senderDropped => exact ⟨fun h => (hl h).close, fun h => (hw h).close⟩
  -- the listener
  | listenerReturns | replayClosed | tryClosed => exact ⟨nofun, hw⟩
  | listenerStarts _ hs => exact ⟨fun _ => .borrow hs, hw⟩
  | replaySent h | replayDone h | received h | appended h | trySent h | tryFull h =>
      exact ⟨fun _ => hl (h ▸ trivial), hw⟩
  | replayNotified _ hc | listenerNotified _ hc =>
      refine ⟨fun h => ?_, hw⟩
      split at h
      · exact h.elim
      · rename_i hobs
        exact .told hc (Bool.not_eq_true _ ▸ hobs)
  | recvFailed | ignored => exact ⟨hl, hw⟩
  -- the worker
  | workerReturns | chanEnded => exact ⟨hl, nofun⟩
  | workerStarts _ hs => exact ⟨hl, fun _ => .borrow hs⟩
  | taken h | posted h | finished h | removed h => exact ⟨hl, fun _ => hw (h ▸ trivial)⟩
  | workerNotified _ hc | pushNotified _ hc =>
      split
      · exact ⟨hl, nofun⟩
      · rename_i hobs
        exact ⟨hl, fun _ => .told hc (Bool.not_eq_true _ ▸ hobs)⟩

structure Proc.Up (p : Proc) : Prop where
  listener : p.listener ≠ .stopped
  worker : p.worker ≠ .stopped

theorem afterAppend_ne_stopped (adif : Text) (res : Except Queue.QsoQueueError UInt64) :
    afterAppend adif res ≠ .stopped := by
  cases res <;> nofun

theorem handlePostOutcome_ne_stopped (res : Except Wavelog.WavelogError Unit) (item : QueueItem) :
    handlePostOutcome res item ≠ .stopped := by
  rcases res with _ | _ <;> rcases item with ⟨_ | _, _⟩ <;> simp [handlePostOutcome] <;> split <;>
    nofun

theorem Proc.Up.step (h : p.Up) (hu : Unasked p.shutdown)
    (hs : Step J W ⟨disk, some p⟩ a ⟨disk', some p'⟩) : p'.Up := by
  obtain ⟨hl, hw⟩ := h
  cases hs with
  | shutdown | senderDropped | recvFailed | ignored => exact ⟨hl, hw⟩
  -- the listener
  | listenerReturns _ hv | workerReturns _ hv => exact absurd (hu.value.symm.trans hv) nofun
  | replayClosed _ h | tryClosed _ h => exact absurd h hw
  | listenerStarts | replaySent | replayDone | received | trySent | tryFull => exact ⟨nofun, hw⟩
  | appended => exact ⟨afterAppend_ne_stopped _ _, hw⟩
  | replayNotified _ hc | listenerNotified _ hc =>
      rw [if_neg (by simp [(hu.not_observed hc).2])]
      exact ⟨nofun, hw⟩
  -- the worker
  | workerStarts | taken | posted | removed => exact ⟨hl, nofun⟩
  | finished => exact ⟨hl, handlePostOutcome_ne_stopped _ _⟩
  | chanEnded _ _ h => exact absurd h hl
  | workerNotified _ hc =>
      rw [if_neg (by simp [(hu.not_observed hc).2])]
      exact ⟨hl, hw⟩
  | pushNotified _ hc =>
      rw [if_neg (by simp [(hu.not_observed hc).2])]
      exact ⟨hl, nofun⟩

end Wsjtx

end WavelogRelay
