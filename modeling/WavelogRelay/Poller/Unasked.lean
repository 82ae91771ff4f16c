import WavelogRelay.Poller.Fresh

/-!
# Poller — updates that do not ask for shutdown

The tick loop and the radio worker when the shutdown channel is only sent `false`.  `World.calm`
is the world as it would be without the updates.

* `Undisturbed`: at a push the worker takes no update it has not seen.
* `calm_step`: such a step is a step of the calm world, or is silent there.
* `Carried`: each push that is started is carried to its outcome.
* `Carried.step`, `Carried.undisturbed`: an undisturbed step keeps it, and no other does.
-/

namespace WavelogRelay.Poller
open Library Rig Wavelog

variable {F : Type}

/-! ### Observations -/

/-- What is seen of an act. -/
def observe (_ : World F) (a : Act F) : Option (Act F) :=
  match a with
  | .shutdown _ | .senderDropped | .ticker | .worker => none
  | a => some a

@[simp] def Act.startedPush : Act F → Option (Snapshot F)
  | .started s _ => some s
  | _ => none

@[simp] def Act.pushedPush : Act F → Option (Snapshot F)
  | .pushed s _ _ => some s
  | _ => none

/-- The snapshots whose push has started. -/
def startedPushes (bs : List (Act F)) : List (Snapshot F) := bs.filterMap Act.startedPush

/-- The snapshots whose push has had its outcome. -/
def finishedPushes (bs : List (Act F)) : List (Snapshot F) := bs.filterMap Act.pushedPush

@[simp] theorem startedPushes_snoc (bs : List (Act F)) (a : Act F) :
    startedPushes (bs ++ [a]) = startedPushes bs ++ a.startedPush.toList := filterMap_snoc _ _ _

@[simp] theorem finishedPushes_snoc (bs : List (Act F)) (a : Act F) :
    finishedPushes (bs ++ [a]) = finishedPushes bs ++ a.pushedPush.toList := filterMap_snoc _ _ _

/-! ### Undisturbed runs -/

/-- No update asks for shutdown. -/
def FalseUpdate : Act F → Prop
  | .shutdown value => value = false
  | .senderDropped => False
  | _ => True

/-- When a notification drops a push, the worker has seen every update. -/
def Undisturbed (w : World F) : Act F → Prop
  | .cancelled _ _ => w.shutdown.version = w.workerSeen
  | _ => True

/-- The world as it would be without updates. -/
def World.calm (w : World F) : World F :=
  { w with shutdown := .new false, tickerSeen := 0, workerSeen := 0 }

/-- The snapshot whose push is in progress. -/
def Worker.inPush : Worker F → List (Snapshot F)
  | .pushing s _ => [s]
  | _ => []

variable {R : F32 F} {w w' : World F} {a : Act F}

theorem unasked_step (hu : Unasked w.shutdown) (ha : FalseUpdate a) (h : Step R w a w') :
    Unasked w'.shutdown := by
  cases h with
  | shutdown value => exact ⟨ha, hu.alive⟩
  | senderDropped => exact ha.elim
  | tickerNotified ht hc => split <;> exact hu
  | _ => exact hu

/-- **Without the updates**, an undisturbed step is the same step, or none. -/
theorem calm_step (hu : Unasked w.shutdown) (hun : Undisturbed w a) (h : Step R w a w') :
    (observe w a = none ∧ w'.calm = w.calm) ∨
      Quiet w.calm a ∧ Step R w.calm a w'.calm := by
  cases h with
  | shutdown value => exact .inl ⟨rfl, rfl⟩
  | senderDropped => exact .inl ⟨rfl, rfl⟩
  | runReturns ht hs => cases hs.symm.trans hu.value
  | runStarts ht hs => exact .inr ⟨trivial, .runStarts ht rfl⟩
  | published state ht => exact .inr ⟨trivial, .published state ht⟩
  | pollFailed ht => exact .inl ⟨rfl, rfl⟩
  | tickerNotified ht hc =>
      rw [(hu.not_observed hc).2]
      exact .inl ⟨rfl, rfl⟩
  | workerReturns hw hs => cases hs.symm.trans hu.value
  | workerStarts hw hs => exact .inr ⟨trivial, .workerStarts hw rfl⟩
  | statesClosed hw hc => exact .inr ⟨trivial, .statesClosed hw hc⟩
  | emptied hw hc hv => exact .inr ⟨trivial, .emptied hw hc hv⟩
  | skipped hw hc hv hnow hskip => exact .inr ⟨trivial, .skipped hw hc hv hnow hskip⟩
  | started hw hc hv hnow hskip => exact .inr ⟨trivial, .started hw hc hv hnow hskip⟩
  | pushed hw hsound hres => exact .inr ⟨trivial, .pushed hw hsound hres⟩
  | cancelled hw hatt hc => exact absurd hun (hu.not_observed hc).1
  | workerNotified hw hc =>
      rw [(hu.not_observed hc).2]
      exact .inl ⟨rfl, by simp [World.calm, hw]⟩

/-! ### What a run does -/

/-- Each push that is started is carried to its outcome. -/
structure Carried (bs : List (Act F)) (w : World F) : Prop where
  /-- `run` spawns the worker. -/
  unspawned : w.ticker = .spawned → w.worker = .unspawned
  pushes : startedPushes bs = finishedPushes bs ++ w.worker.inPush

theorem Carried.step {bs : List (Act F)} (hu : Unasked w.shutdown) (hun : Undisturbed w a)
    (hc : Carried bs w) (h : Step R w a w') :
    Carried (bs ++ (observe w a).toList) w' := by
  obtain ⟨hsp, hp⟩ := hc
  -- a worker that takes a step has been spawned
  have hspawned : w.worker ≠ .unspawned → w.ticker ≠ .spawned := fun hw ht => hw (hsp ht)
  cases h with
  | runReturns ht hs => cases hs.symm.trans hu.value
  | runStarts ht hs =>
      rw [hsp ht] at hp
      exact ⟨nofun, by simpa [observe, Worker.inPush] using hp⟩
  | tickerNotified ht hch =>
      rw [(hu.not_observed hch).2]
      exact ⟨hsp, by simpa [observe] using hp⟩
  | workerReturns hw hs => cases hs.symm.trans hu.value
  | workerStarts hw hs =>
      rw [hw] at hp hspawned
      exact ⟨fun ht => absurd ht (hspawned nofun), by simpa [observe, Worker.inPush] using hp⟩
  | statesClosed hw hch =>
      rw [hw] at hp hspawned
      exact ⟨fun ht => absurd ht (hspawned nofun), by simpa [observe, Worker.inPush] using hp⟩
  | started hw hch hv hnow hskip =>
      rw [hw] at hp hspawned
      exact ⟨fun ht => absurd ht (hspawned nofun), by simpa [observe, Worker.inPush] using hp⟩
  | pushed hw hsound hres =>
      rw [hw] at hp hspawned
      exact ⟨fun ht => absurd ht (hspawned nofun), by simpa [observe, Worker.inPush] using hp⟩
  | cancelled hw hatt hch => exact absurd hun (hu.not_observed hch).1
  | workerNotified hw hch =>
      rw [(hu.not_observed hch).2]
      rw [hw] at hp hspawned
      exact ⟨fun ht => absurd ht (hspawned nofun), by simpa [observe, Worker.inPush] using hp⟩
  | _ => exact ⟨hsp, by simpa [observe, World.evaluate] using hp⟩

/-- A step that drops no push is undisturbed. -/
theorem Carried.undisturbed {bs : List (Act F)} (hu : Unasked w.shutdown) (hc : Carried bs w)
    (h : Step R w a w') (hc' : Carried (bs ++ (observe w a).toList) w') : Undisturbed w a := by
  obtain ⟨-, hp⟩ := hc
  cases h with
  | cancelled hw hatt hch =>
      -- the snapshot of the push is neither finished nor in a push
      have hp' := hc'.pushes
      rw [hw] at hp
      rw [(hu.not_observed hch).2] at hp'
      have hlen := congrArg List.length hp
      have hlen' := congrArg List.length hp'
      simp [observe, Worker.inPush] at hlen hlen'
      omega
  | _ => trivial

end WavelogRelay.Poller
