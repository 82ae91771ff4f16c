import WavelogRelay.Wsjtx.Handoff

/-!
# WSJT-X — updates that do not ask for shutdown

A process whose shutdown channel is only sent `false`, from its start on.  `World.calm` is the
world as it would be without the updates; what is seen of a run are its acts (`Observation`), but
not the updates and what the tasks do among themselves.

* `Undisturbed`: at the send of the replay, and at the push, a task takes no update it has not
  seen.
* `calm_step`: such a step is a step of the calm world, or is silent there.
* `NothingLost`: every replayed item is sent, and every item taken is pushed and handled.
* `NothingLost.step`, `NothingLost.disturbed`: an undisturbed step keeps it, and no other does.
-/

namespace WavelogRelay.Wsjtx
open Library Queue Wavelog

/-! ### Observations -/

inductive Observation where
  | act (a : Act)
  /-- `handle_post_outcome`. -/
  | handled (item : QueueItem) (res : Except WavelogError Unit)

/-- What is seen of a step of the worker: the outcome it handles. -/
def Worker.observe : Worker → Option Observation
  | .finishing item res => some (.handled item res)
  | _ => none

def observe (w : World) : Act → Option Observation
  | .shutdown _ | .senderDropped | .listener => none
  | .worker => w.proc.bind fun p => p.worker.observe
  | a => some (.act a)

def Observation.act? : Observation → Option Act
  | .act a => some a
  | .handled .. => none

def Observation.handled? : Observation → Option (QueueItem × Except WavelogError Unit)
  | .act _ => none
  | .handled item res => some (item, res)

@[simp] def Act.outcome : Act → Option (QueueItem × Except WavelogError Unit)
  | .posted item _ _ res => some (item, res)
  | _ => none

/-- The acts that are seen. -/
def acts (bs : List Observation) : List Act := bs.filterMap Observation.act?

/-- The outcomes that have been handled. -/
def handled (bs : List Observation) : List (QueueItem × Except WavelogError Unit) :=
  bs.filterMap Observation.handled?

/-- The outcomes of the pushes. -/
def outcomes (bs : List Observation) : List (QueueItem × Except WavelogError Unit) :=
  (acts bs).filterMap Act.outcome

section Snoc

variable (bs : List Observation) (a : Act) (item : QueueItem) (res : Except WavelogError Unit)

@[simp] theorem acts_act : acts (bs ++ [.act a]) = acts bs ++ [a] := filterMap_snoc _ _ _

@[simp] theorem acts_handled : acts (bs ++ [.handled item res]) = acts bs := by
  simp [acts, Observation.act?]

@[simp] theorem handled_act : handled (bs ++ [.act a]) = handled bs := by
  simp [handled, Observation.handled?]

@[simp] theorem handled_handled :
    handled (bs ++ [.handled item res]) = handled bs ++ [(item, res)] := filterMap_snoc _ _ _

@[simp] theorem outcomes_act : outcomes (bs ++ [.act a]) = outcomes bs ++ a.outcome.toList := by
  rw [outcomes, acts_act, filterMap_snoc]
  rfl

end Snoc

/-! ### Undisturbed runs -/

/-- The sender of the shutdown channel sends, or is dropped. -/
def Act.isUpdate : Act → Bool
  | .shutdown _ | .senderDropped => true
  | _ => false

/-- No update asks for shutdown. -/
def FalseUpdate : Act → Prop
  | .shutdown value => value = false
  | .senderDropped => False
  | _ => True

/-- The listener is at the send of a replayed item. -/
def Listener.Sending : Listener → Prop
  | .replaying (_ :: _) => True
  | _ => False

/-- The worker is at a push. -/
def Worker.Pushing : Worker → Prop
  | .pushing _ => True
  | _ => False

/-- At the send of a replayed item, and at a push, the task that steps has seen every update. -/
structure Undisturbed (w : World) (a : Act) : Prop where
  listener : ∀ p, w.proc = some p → a = .listener → p.listener.Sending →
    p.shutdown.version = p.listenerSeen
  worker : ∀ p, w.proc = some p → a = .worker → p.worker.Pushing →
    p.shutdown.version = p.workerSeen

/-- The process does not start again. -/
def SameProcess : Act → Prop
  | .opened .. | .openFailed .. => False
  | _ => True

/-- The process as it would be without updates. -/
def Proc.calm (p : Proc) : Proc :=
  { p with listenerSeen := 0, workerSeen := 0, shutdown := .new false }

def World.calm (w : World) : World := ⟨w.disk, w.proc.map Proc.calm⟩

def World.Unasked (w : World) : Prop := ∀ p, w.proc = some p → WavelogRelay.Unasked p.shutdown

variable {J : SerdeJson} {W : WavelogJson}

/-- Only an update changes the channel. -/
theorem shutdown_of_step {disk disk' : Disk} {p p' : Proc} {a : Act} (ha : a.isUpdate = false)
    (h : Step J W ⟨disk, some p⟩ a ⟨disk', some p'⟩) : p'.shutdown = p.shutdown := by
  cases h with
  | shutdown value => cases ha
  | senderDropped => cases ha
  | workerNotified hw hc => split <;> rfl
  | pushNotified hw hc => split <;> rfl
  | _ => rfl

theorem unasked_step {disk disk' : Disk} {p p' : Proc} {a : Act} (hu : Unasked p.shutdown)
    (ha : FalseUpdate a) (h : Step J W ⟨disk, some p⟩ a ⟨disk', some p'⟩) :
    Unasked p'.shutdown := by
  cases h with
  | shutdown value => exact ⟨ha, hu.alive⟩
  | senderDropped => exact ha.elim
  | workerNotified hw hc => split <;> exact hu
  | pushNotified hw hc => split <;> exact hu
  | _ => exact hu

theorem World.unasked_step {w w' : World} {a : Act} (hu : w.Unasked) (hsame : SameProcess a)
    (ha : FalseUpdate a) (h : Step J W w a w') : w'.Unasked := by
  intro p' hp'
  obtain ⟨disk, _ | p⟩ := w
  · cases h with
    | opened h => exact hsame.elim
    | openFailed h => exact hsame.elim
  · obtain ⟨disk', _⟩ := w'
    cases hp'
    exact Wsjtx.unasked_step (hu p rfl) ha h

theorem observe_calm (w : World) (a : Act) : observe w.calm a = observe w a := by
  obtain ⟨disk, _ | p⟩ := w <;> cases a <;> rfl

/-- **Without the updates**, an undisturbed step is the same step, or none. -/
theorem calm_step {w w' : World} {a : Act} (hu : w.Unasked) (hsame : SameProcess a)
    (hun : Undisturbed w a) (h : Step J W w a w') :
    (observe w a = none ∧ w'.calm = w.calm) ∨
      a.isUpdate = false ∧ Step J W w.calm a w'.calm := by
  cases h with
  | opened h => exact hsame.elim
  | openFailed h => exact hsame.elim
  | killed => exact .inr ⟨rfl, .killed⟩
  | shutdown value => exact .inl ⟨rfl, rfl⟩
  | senderDropped => exact .inl ⟨rfl, rfl⟩
  | listenerReturns hl hs => cases hs.symm.trans (hu _ rfl).value
  | listenerStarts hl hs =>
      exact .inr ⟨rfl, .listenerStarts hl rfl⟩
  | replaySent hl hw hroom =>
      exact .inr ⟨rfl, .replaySent hl hw hroom⟩
  | replayClosed hl hw => exact .inr ⟨rfl, .replayClosed hl hw⟩
  | replayNotified hl hc =>
      have hseen := hun.listener _ rfl rfl (by rw [hl]; trivial)
      exact absurd hseen ((hu _ rfl).not_observed hc).1
  | replayDone hl => exact .inr ⟨rfl, .replayDone hl⟩
  | recvFailed hl => exact .inl ⟨rfl, rfl⟩
  | ignored d hl hd => exact .inr ⟨rfl, .ignored d hl hd⟩
  | receivePanics d hl hd => exact .inr ⟨rfl, .receivePanics d hl hd⟩
  | received hl hd => exact .inr ⟨rfl, .received hl hd⟩
  | appended hl h => exact .inr ⟨rfl, .appended hl h⟩
  | trySent hl hw hroom => exact .inr ⟨rfl, .trySent hl hw hroom⟩
  | tryFull hl hw hfull => exact .inr ⟨rfl, .tryFull hl hw hfull⟩
  | tryClosed hl hw => exact .inr ⟨rfl, .tryClosed hl hw⟩
  | listenerNotified hl hc =>
      rw [((hu _ rfl).not_observed hc).2]
      refine .inl ⟨rfl, ?_⟩
      simp [World.calm, Proc.calm, hl]
  | workerReturns hw hs => cases hs.symm.trans (hu _ rfl).value
  | workerStarts hw hs => exact .inr ⟨rfl, .workerStarts hw rfl⟩
  | taken hw hc => exact .inr ⟨rfl, .taken hw hc⟩
  | chanEnded hw hc hl => exact .inr ⟨rfl, .chanEnded hw hc hl⟩
  | workerNotified hw hc =>
      rw [((hu _ rfl).not_observed hc).2]
      refine .inl ⟨?_, rfl⟩
      simp [observe, Worker.observe, hw]
  | posted hw hres => exact .inr ⟨rfl, .posted hw hres⟩
  | pushNotified hw hc =>
      have hseen := hun.worker _ rfl rfl (by rw [hw]; trivial)
      exact absurd hseen ((hu _ rfl).not_observed hc).1
  | finishPanics hw hsum => exact .inr ⟨rfl, .finishPanics hw hsum⟩
  | finished hw hsum => exact .inr ⟨rfl, .finished hw hsum⟩
  | removed hw h => exact .inr ⟨rfl, .removed hw h⟩

/-! ### What a run does -/

/-- What the listener has sent of the replay, by where it is. -/
def Replayed (replay : Replay) (sent : List QueueItem) : Listener → Prop
  | .spawned rest => rest = replay ∧ sent = []
  | .replaying rest => sent ++ rest.map replayItem = replay.map replayItem
  | .stopped => False
  | _ => replay.map replayItem <+: sent

/-- The item whose push is in progress. -/
def Worker.inPush : Worker → List QueueItem
  | .pushing item => [item]
  | _ => []

/-- The outcome that is being handled. -/
def Worker.inHand : Worker → List (QueueItem × Except WavelogError Unit)
  | .finishing item res => [(item, res)]
  | _ => []

@[simp] theorem acts_observe (bs : List Observation) (k : Worker) :
    acts (bs ++ k.observe.toList) = acts bs := by
  cases k <;> simp [Worker.observe]

@[simp] theorem outcomes_observe (bs : List Observation) (k : Worker) :
    outcomes (bs ++ k.observe.toList) = outcomes bs := by
  rw [outcomes, acts_observe, outcomes]

@[simp] theorem handled_observe (bs : List Observation) (k : Worker) :
    handled (bs ++ k.observe.toList) = handled bs ++ k.inHand := by
  cases k <;> simp [Worker.observe, Worker.inHand]

/-- What has become of the items, by where the worker is. -/
structure Carried (bs : List Observation) (p : Proc) : Prop where
  running : p.worker ≠ .stopped
  drawn : sentItems (acts bs) = takenItems (acts bs) ++ p.chan
  pushed : takenItems (acts bs) = (outcomes bs).map Prod.fst ++ p.worker.inPush
  handled : outcomes bs = handled bs ++ p.worker.inHand

section Step

variable {disk disk' : Disk} {p p' : Proc} {a : Act} {replay : Replay} {bs : List Observation}

theorem Replayed.step (hu : Unasked p.shutdown) (hun : Undisturbed ⟨disk, some p⟩ a)
    (hrunning : p.worker ≠ .stopped) (hr : Replayed replay (sentItems (acts bs)) p.listener)
    (h : Step J W ⟨disk, some p⟩ a ⟨disk', some p'⟩) :
    Replayed replay (sentItems (acts (bs ++ (observe ⟨disk, some p⟩ a).toList))) p'.listener := by
  cases h with
  | listenerReturns hl hs => cases hs.symm.trans hu.value
  | listenerStarts hl hs =>
      rw [hl] at hr
      obtain ⟨rfl, hsent⟩ := hr
      simp [observe, Replayed, hsent]
  | replaySent hl hw hroom =>
      rw [hl] at hr
      simpa [observe, Replayed] using hr
  | replayClosed hl hw => exact absurd hw hrunning
  | replayNotified hl hc =>
      have hseen := hun.listener _ rfl rfl (by rw [hl]; trivial)
      exact absurd hseen (hu.not_observed hc).1
  | replayDone hl =>
      rw [hl] at hr
      simp only [Replayed, List.map_nil, List.append_nil] at hr
      simp [observe, Replayed, hr]
  | received hl hd =>
      rw [hl] at hr
      simpa [observe, Replayed] using hr
  | @appended _ _ _ _ _ _ res hl happ =>
      rw [hl] at hr
      cases res <;> simpa [observe, Replayed, afterAppend] using hr
  | trySent hl hw hroom =>
      rw [hl] at hr
      simpa [observe, Replayed] using hr.trans (List.prefix_append _ _)
  | tryFull hl hw hfull =>
      rw [hl] at hr
      simpa [observe, Replayed] using hr
  | tryClosed hl hw => exact absurd hw hrunning
  | listenerNotified hl hc =>
      rw [hl] at hr
      simpa [observe, (hu.not_observed hc).2] using hr
  | workerNotified hw hc => simpa [observe, (hu.not_observed hc).2] using hr
  | pushNotified hw hc => simpa [observe, (hu.not_observed hc).2] using hr
  | _ => simpa [observe] using hr

/-- A step of the worker that takes no item, and has none in hand after it. -/
theorem Carried.moved (hc : Carried bs p) (p' : Proc) (hrunning : p'.worker ≠ .stopped)
    (hchan : p'.chan = p.chan) (hpush : p'.worker.inPush = p.worker.inPush)
    (hhand : p'.worker.inHand = []) : Carried (bs ++ p.worker.observe.toList) p' where
  running := hrunning
  drawn := by simpa [hchan] using hc.drawn
  pushed := by simpa [hpush] using hc.pushed
  handled := by simpa [hhand] using hc.handled

theorem Carried.step (hu : Unasked p.shutdown) (hun : Undisturbed ⟨disk, some p⟩ a)
    (hlistener : p.listener ≠ .stopped) (hc : Carried bs p)
    (h : Step J W ⟨disk, some p⟩ a ⟨disk', some p'⟩) :
    Carried (bs ++ (observe ⟨disk, some p⟩ a).toList) p' := by
  have hmoved := hc.moved p'
  obtain ⟨hrunning, hdrawn, hpushed, hhandled⟩ := hc
  cases h with
  | replaySent hl hw hroom =>
      exact ⟨hrunning, by simp [observe, hdrawn], by simpa [observe] using hpushed,
        by simpa [observe] using hhandled⟩
  | trySent hl hw hroom =>
      exact ⟨hrunning, by simp [observe, hdrawn], by simpa [observe] using hpushed,
        by simpa [observe] using hhandled⟩
  | workerReturns hw hs => cases hs.symm.trans hu.value
  | workerStarts hw hs => exact hmoved nofun rfl (by rw [hw]; rfl) rfl
  | taken hw hchan =>
      rw [hw] at hpushed hhandled
      rw [hchan] at hdrawn
      exact ⟨nofun, by simpa [observe] using hdrawn,
        by simpa [observe, Worker.inPush] using hpushed,
        by simpa [observe, Worker.inHand] using hhandled⟩
  | chanEnded hw hchan hl => exact absurd hl hlistener
  | workerNotified hw hch =>
      rw [(hu.not_observed hch).2] at hmoved ⊢
      exact hmoved hrunning rfl rfl (congrArg Worker.inHand hw)
  | posted hw hres =>
      rw [hw] at hpushed hhandled
      exact ⟨nofun, by simpa [observe] using hdrawn,
        by simpa [observe, Worker.inPush] using hpushed,
        by simpa [observe, Worker.inHand] using hhandled⟩
  | pushNotified hw hch =>
      have hseen := hun.worker _ rfl rfl (by rw [hw]; trivial)
      exact absurd hseen (hu.not_observed hch).1
  | @finished _ _ item res _ hw hsum =>
      rcases handlePostOutcome_cases res item with hidle | ⟨seq, hseq⟩
      · rw [hidle] at hmoved ⊢
        exact hmoved nofun rfl (by rw [hw]; rfl) rfl
      · rw [hseq] at hmoved ⊢
        exact hmoved nofun rfl (by rw [hw]; rfl) rfl
  | removed hw hrem =>
      rw [hw] at hpushed hhandled
      exact ⟨nofun, by simpa [observe] using hdrawn,
        by simpa [observe, Worker.inPush] using hpushed,
        by simpa [observe, Worker.inHand] using hhandled⟩
  | _ =>
      exact ⟨hrunning, by simpa [observe] using hdrawn, by simpa [observe] using hpushed,
        by simpa [observe] using hhandled⟩

end Step

/-- The replay is sent in order, and what is sent is taken; each item taken is pushed, and the
outcome handled. -/
structure NothingLost (replay : Replay) (bs : List Observation) (p : Proc) : Prop
    extends Carried bs p where
  replayed : Replayed replay (sentItems (acts bs)) p.listener

theorem NothingLost.start (inner : Inner) (replay : Replay) :
    NothingLost replay [] (.spawn inner replay) where
  running := nofun
  drawn := rfl
  pushed := rfl
  handled := rfl
  replayed := ⟨rfl, rfl⟩

theorem NothingLost.step {disk disk' : Disk} {p p' : Proc} {a : Act} {replay : Replay}
    {bs : List Observation} (hu : Unasked p.shutdown) (hun : Undisturbed ⟨disk, some p⟩ a)
    (hn : NothingLost replay bs p) (h : Step J W ⟨disk, some p⟩ a ⟨disk', some p'⟩) :
    NothingLost replay (bs ++ (observe ⟨disk, some p⟩ a).toList) p' where
  toCarried := by
    refine hn.toCarried.step hu hun (fun hl => ?_) h
    have hr := hn.replayed
    rw [hl] at hr
    exact hr
  replayed := hn.replayed.step hu hun hn.running h

theorem undisturbed_of_ended {disk disk' : Disk} {p : Proc} {a : Act}
    (h : Step J W ⟨disk, some p⟩ a ⟨disk', none⟩) : Undisturbed ⟨disk, some p⟩ a := by
  have hne : a ≠ .listener ∧ a ≠ .worker := by
    cases h <;> exact ⟨nofun, nofun⟩
  exact ⟨fun _ _ ha => absurd ha hne.1, fun _ _ ha => absurd ha hne.2⟩

/-- **A step that loses nothing is undisturbed.** -/
theorem NothingLost.disturbed {disk disk' : Disk} {p p' : Proc} {a : Act} {replay : Replay}
    {bs : List Observation} (hu : Unasked p.shutdown) (hn : NothingLost replay bs p)
    (h : Step J W ⟨disk, some p⟩ a ⟨disk', some p'⟩)
    (hn' : NothingLost replay (bs ++ (observe ⟨disk, some p⟩ a).toList) p') :
    Undisturbed ⟨disk, some p⟩ a := by
  refine ⟨?_, ?_⟩
  · rintro p₀ hp₀ rfl hsending
    cases hp₀
    cases h with
    | replayClosed hl hw => exact absurd hw hn.running
    | replayNotified hl hc =>
        -- what is left to send is shorter by the item
        have hr := hn.replayed
        have hr' := hn'.replayed
        rw [hl] at hr
        rw [(hu.not_observed hc).2] at hr'
        simp only [Replayed, observe, Option.toList_none, List.append_nil, Bool.false_eq_true,
          if_false] at hr hr'
        have hlen := congrArg List.length (hr.trans hr'.symm)
        simp at hlen
    | listenerReturns hl | listenerStarts hl | replayDone hl | recvFailed hl | ignored _ hl
    | tryClosed hl | listenerNotified hl =>
        rw [hl] at hsending
        exact hsending.elim
  · rintro p₀ hp₀ rfl hpushing
    cases hp₀
    cases h with
    | pushNotified hw hc =>
        -- the item that was taken is neither pushed nor in a push
        have hp := hn.pushed
        have hp' := hn'.pushed
        rw [hw] at hp
        rw [(hu.not_observed hc).2] at hp'
        simp only [observe, Option.bind_some, acts_observe, outcomes_observe] at hp'
        have hlen := congrArg List.length (hp.symm.trans hp')
        simp [Worker.inPush] at hlen
    | workerReturns hw | workerStarts hw | chanEnded hw | workerNotified hw | finished hw =>
        rw [hw] at hpushing
        exact hpushing.elim

/-! ### The steps of a world -/

section World

variable {disk : Disk} {w w' : World} {a : Act} {inner : Inner} {replay : Replay}
  {bs : List Observation}

theorem Undisturbed.of_other (hl : a ≠ .listener) (hw : a ≠ .worker) : Undisturbed w a :=
  ⟨fun _ _ h => absurd h hl, fun _ _ h => absurd h hw⟩

theorem Undisturbed.of_listener {p : Proc} (hl : ¬ p.listener.Sending) :
    Undisturbed ⟨disk, some p⟩ .listener := by
  refine ⟨?_, fun _ _ ha => (by cases ha)⟩
  rintro p₀ hp₀ - hsending
  cases hp₀
  exact absurd hsending hl

theorem Undisturbed.of_worker {p : Proc} (hw : ¬ p.worker.Pushing) :
    Undisturbed ⟨disk, some p⟩ .worker := by
  refine ⟨fun _ _ ha => (by cases ha), ?_⟩
  rintro p₀ hp₀ - hpushing
  cases hp₀
  exact absurd hpushing hw

theorem unasked_spawn : World.Unasked ⟨disk, some (.spawn inner replay)⟩ := by
  intro p hp
  cases hp
  exact ⟨rfl, rfl⟩

/-- In a running process nothing is lost. -/
def World.Kept (replay : Replay) (bs : List Observation) (w : World) : Prop :=
  ∀ p, w.proc = some p → NothingLost replay bs p

theorem World.kept_spawn : World.Kept replay [] ⟨disk, some (.spawn inner replay)⟩ :=
  fun _ hp => Option.some.inj hp ▸ .start inner replay

theorem World.Kept.step (hu : w.Unasked) (ha : SameProcess a) (hun : Undisturbed w a)
    (hk : w.Kept replay bs) (h : Step J W w a w') :
    w'.Kept replay (bs ++ (observe w a).toList) := by
  intro p' hp'
  obtain ⟨disk, _ | p⟩ := w
  · cases h with
    | opened h => exact ha.elim
    | openFailed h => exact ha.elim
  · obtain ⟨disk', _⟩ := w'
    cases hp'
    exact (hk p rfl).step (hu p rfl) hun h

/-- A step that keeps everything is undisturbed. -/
theorem World.Kept.undisturbed (hu : w.Unasked) (hk : w.Kept replay bs) (h : Step J W w a w')
    (hk' : w'.Kept replay (bs ++ (observe w a).toList)) : Undisturbed w a := by
  obtain ⟨disk, _ | p⟩ := w
  · exact ⟨fun _ hp => (by cases hp), fun _ hp => (by cases hp)⟩
  · obtain ⟨disk', _ | p'⟩ := w'
    · exact undisturbed_of_ended h
    · exact (hk p rfl).disturbed (hu p rfl) h (hk' p' rfl)

end World

end WavelogRelay.Wsjtx
