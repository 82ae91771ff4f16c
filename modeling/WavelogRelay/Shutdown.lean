import WavelogRelay.Library.Observed
import WavelogRelay.Poller.Unasked
import WavelogRelay.Wsjtx.Unasked

/-!
# Shutdown — updates that do not ask for it

The tasks of one process that watch its shutdown channel: the WSJT-X listener and the POST worker,
and the tick loop and the radio worker.  A step is one of a task, in any order, or an update of the
channel, which all their receivers get.

* `unasked_unaffected`: updates that keep the channel `false` cannot be told from none, and lose
  nothing, as long as none is taken at the send of a replayed item or at a push; one that is taken
  there loses the item or the push.
* `update_loses`: such an update.
-/

namespace WavelogRelay.Shutdown
open Library Queue Rig Wavelog

/-! ### The tasks -/

structure Tasks (F : Type) where
  pipeline : Wsjtx.World
  poller : Poller.World F

inductive Act (F : Type) where
  | pipeline (a : Wsjtx.Act)
  | poller (a : Poller.Act F)
  /-- `shutdown_tx.send(value)`. -/
  | send (value : Bool)
  | senderDropped

variable {F : Type}

/-- A process that has opened the queue with `replay`. -/
def Tasks.start (disk : Disk) (inner : Inner) (replay : Replay) : Tasks F :=
  ⟨⟨disk, some (.spawn inner replay)⟩, .start⟩

variable (J : SerdeJson) (W : WavelogJson) (R : F32 F)

inductive Step : Tasks F → Act F → Tasks F → Prop where
  | pipeline {w w' : Wsjtx.World} {q : Poller.World F} {a : Wsjtx.Act}
      (h : Wsjtx.Step J W w a w') (ha : a.isUpdate = false) (hsame : Wsjtx.SameProcess a) :
      Step ⟨w, q⟩ (.pipeline a) ⟨w', q⟩
  | poller {w : Wsjtx.World} {q q' : Poller.World F} {a : Poller.Act F}
      (h : Poller.Step R q a q') (ha : Poller.Quiet q a) (hproc : w.proc.isSome) :
      Step ⟨w, q⟩ (.poller a) ⟨w, q'⟩
  | send {w w' : Wsjtx.World} {q q' : Poller.World F} (value : Bool)
      (h : Wsjtx.Step J W w (.shutdown value) w') (h' : Poller.Step R q (.shutdown value) q') :
      Step ⟨w, q⟩ (.send value) ⟨w', q'⟩
  | senderDropped {w w' : Wsjtx.World} {q q' : Poller.World F}
      (h : Wsjtx.Step J W w .senderDropped w') (h' : Poller.Step R q .senderDropped q') :
      Step ⟨w, q⟩ .senderDropped ⟨w', q'⟩

variable {J W R} {s s' : Tasks F} {a : Act F}

/-! ### What is seen -/

/-- What is seen of a step. -/
def observe (s : Tasks F) : Act F → Option (Wsjtx.Observation ⊕ Poller.Act F)
  | .pipeline a => (Wsjtx.observe s.pipeline a).map .inl
  | .poller a => (Poller.observe s.poller a).map .inr
  | .send _ | .senderDropped => none

/-- What is seen of the listener and the POST worker. -/
def pipelineSeen (bs : List (Wsjtx.Observation ⊕ Poller.Act F)) : List Wsjtx.Observation :=
  bs.filterMap Sum.getLeft?

/-- What is seen of the tick loop and the radio worker. -/
def pollerSeen (bs : List (Wsjtx.Observation ⊕ Poller.Act F)) : List (Poller.Act F) :=
  bs.filterMap Sum.getRight?

section Seen

variable (bs : List (Wsjtx.Observation ⊕ Poller.Act F)) (s : Tasks F)

@[simp] theorem pipelineSeen_pipeline (a : Wsjtx.Act) :
    pipelineSeen (bs ++ (observe s (.pipeline a)).toList) =
      pipelineSeen bs ++ (Wsjtx.observe s.pipeline a).toList := by
  cases h : Wsjtx.observe s.pipeline a <;> simp [pipelineSeen, observe, h]

@[simp] theorem pollerSeen_pipeline (a : Wsjtx.Act) :
    pollerSeen (bs ++ (observe s (.pipeline a)).toList) = pollerSeen bs := by
  cases h : Wsjtx.observe s.pipeline a <;> simp [pollerSeen, observe, h]

@[simp] theorem pipelineSeen_poller (a : Poller.Act F) :
    pipelineSeen (bs ++ (observe s (.poller a)).toList) = pipelineSeen bs := by
  cases h : Poller.observe s.poller a <;> simp [pipelineSeen, observe, h]

@[simp] theorem pollerSeen_poller (a : Poller.Act F) :
    pollerSeen (bs ++ (observe s (.poller a)).toList) =
      pollerSeen bs ++ (Poller.observe s.poller a).toList := by
  cases h : Poller.observe s.poller a <;> simp [pollerSeen, observe, h]

end Seen

/-! ### Undisturbed runs -/

/-- Every update keeps the channel `false`, and its sender alive. -/
def FalseUpdates (_ : Tasks F) : Act F → Prop
  | .send value => value = false
  | .senderDropped => False
  | _ => True

/-- No task takes an update it has not seen at the send of a replayed item or at a push. -/
def Undisturbed (s : Tasks F) : Act F → Prop
  | .pipeline a => Wsjtx.Undisturbed s.pipeline a
  | .poller a => Poller.Undisturbed s.poller a
  | _ => True

def Harmless (s : Tasks F) (a : Act F) : Prop := FalseUpdates s a ∧ Undisturbed s a

def NoUpdates (_ : Tasks F) : Act F → Prop
  | .pipeline _ | .poller _ => True
  | .send _ | .senderDropped => False

/-- The tasks as they would be without updates. -/
def Tasks.calm (s : Tasks F) : Tasks F := ⟨s.pipeline.calm, s.poller.calm⟩

structure Tasks.Unasked (s : Tasks F) : Prop where
  pipeline : s.pipeline.Unasked
  poller : WavelogRelay.Unasked s.poller.shutdown

theorem Tasks.Unasked.step (hu : s.Unasked) (ha : FalseUpdates s a) (h : Step J W R s a s') :
    s'.Unasked := by
  obtain ⟨hw, hq⟩ := hu
  cases h with
  | @pipeline w w' q a h hupd hsame =>
      have hfalse : Wsjtx.FalseUpdate a := by
        cases a <;> trivial
      exact ⟨Wsjtx.World.unasked_step hw hsame hfalse h, hq⟩
  | @poller w q q' a h hquiet hproc =>
      have hfalse : Poller.FalseUpdate a := by
        cases a <;> trivial
      exact ⟨hw, Poller.unasked_step hq hfalse h⟩
  | send value h h' =>
      exact ⟨Wsjtx.World.unasked_step (a := .shutdown value) hw trivial ha h,
        Poller.unasked_step (a := .shutdown value) hq ha h'⟩
  | senderDropped h h' => exact ha.elim

/-- **Without the updates**, an undisturbed step is the same step, or none. -/
theorem calm_step (hu : s.Unasked) (ha : FalseUpdates s a) (hun : Undisturbed s a)
    (h : Step J W R s a s') :
    (observe s a = none ∧ s'.calm = s.calm) ∨
      NoUpdates s.calm a ∧ Step J W R s.calm a s'.calm ∧ observe s.calm a = observe s a := by
  obtain ⟨hw, hq⟩ := hu
  cases h with
  | @pipeline w w' q a h hupd hsame =>
      rcases Wsjtx.calm_step hw hsame hun h with ⟨ho, hcalm⟩ | ⟨-, hstep⟩
      · exact .inl ⟨by simp [observe, ho], by simp [Tasks.calm, hcalm]⟩
      · refine .inr ⟨trivial, .pipeline hstep hupd hsame, ?_⟩
        exact congrArg (Option.map Sum.inl) (Wsjtx.observe_calm w a)
  | @poller w q q' a h hquiet hproc =>
      rcases Poller.calm_step hq hun h with ⟨ho, hcalm⟩ | ⟨hquiet', hstep⟩
      · exact .inl ⟨by simp [observe, ho], by simp [Tasks.calm, hcalm]⟩
      · exact .inr ⟨trivial, .poller hstep hquiet' (by simpa [Wsjtx.World.calm] using hproc), rfl⟩
  | send value h h' =>
      have hcalm : ∀ {w w' : Wsjtx.World}, Wsjtx.Step J W w (.shutdown value) w' →
          w'.calm = w.calm := fun h => by cases h; rfl
      have hcalm' : ∀ {q q' : Poller.World F}, Poller.Step R q (.shutdown value) q' →
          q'.calm = q.calm := fun h => by cases h; rfl
      exact .inl ⟨rfl, by simp [Tasks.calm, hcalm h, hcalm' h']⟩
  | senderDropped h h' => exact ha.elim

/-! ### What a run does -/

/-- The replay is sent, what is taken is pushed and handled, and each push of the rig's state is
carried to its outcome. -/
structure NothingLost (replay : Replay) (bs : List (Wsjtx.Observation ⊕ Poller.Act F))
    (s : Tasks F) : Prop where
  pipeline : s.pipeline.Kept replay (pipelineSeen bs)
  poller : Poller.Carried (pollerSeen bs) s.poller

section Run

variable {disk : Disk} {inner : Inner} {replay : Replay}
  {bs : List (Wsjtx.Observation ⊕ Poller.Act F)}

theorem Tasks.unasked_start : (Tasks.start disk inner replay : Tasks F).Unasked :=
  ⟨Wsjtx.unasked_spawn, ⟨rfl, rfl⟩⟩

theorem NothingLost.start : NothingLost replay [] (.start disk inner replay : Tasks F) :=
  ⟨Wsjtx.World.kept_spawn, fun _ => rfl, rfl⟩

theorem NothingLost.step (hu : s.Unasked) (ha : FalseUpdates s a) (hun : Undisturbed s a)
    (hn : NothingLost replay bs s) (h : Step J W R s a s') :
    NothingLost replay (bs ++ (observe s a).toList) s' := by
  obtain ⟨hw, hq⟩ := hu
  obtain ⟨hkept, hcarried⟩ := hn
  cases h with
  | pipeline h hupd hsame =>
      exact ⟨by simpa using hkept.step hw hsame hun h, by simpa using hcarried⟩
  | poller h hquiet hproc =>
      exact ⟨by simpa using hkept, by simpa using hcarried.step hq hun h⟩
  | send value h h' =>
      have hkept' := hkept.step (a := .shutdown value) hw trivial (.of_other nofun nofun) h
      have hcarried' := hcarried.step (a := .shutdown value) hq trivial h'
      exact ⟨by simpa [observe, Wsjtx.observe] using hkept',
        by simpa [observe, Poller.observe] using hcarried'⟩
  | senderDropped h h' => exact ha.elim

/-- **A step that loses nothing is undisturbed.** -/
theorem NothingLost.undisturbed (hu : s.Unasked) (hn : NothingLost replay bs s)
    (h : Step J W R s a s') (hn' : NothingLost replay (bs ++ (observe s a).toList) s') :
    Undisturbed s a := by
  obtain ⟨hw, hq⟩ := hu
  cases h with
  | pipeline h hupd hsame =>
      exact hn.pipeline.undisturbed hw h (by simpa using hn'.pipeline)
  | poller h hquiet hproc => exact hn.poller.undisturbed hq h (by simpa using hn'.poller)
  | send value h h' => trivial
  | senderDropped h h' => trivial

/-- What is seen of a run is what is seen of one without updates, to the same end, and nothing is
lost. -/
structure Unaffected (J : SerdeJson) (W : WavelogJson) (R : F32 F) (disk : Disk) (inner : Inner)
    (replay : Replay) (bs : List (Wsjtx.Observation ⊕ Poller.Act F)) (s : Tasks F) : Prop where
  calm : Observed (Step J W R) NoUpdates observe (.start disk inner replay) bs s.calm
  kept : NothingLost replay bs s

theorem kept_run (h : Observed (Step J W R) Harmless observe (.start disk inner replay) bs s) :
    s.Unasked ∧ NothingLost replay bs s := by
  refine h.invariant (I := fun bs s => s.Unasked ∧ NothingLost replay bs s)
    ⟨Tasks.unasked_start, .start⟩ ?_
  rintro bs s a s' ⟨hu, hn⟩ ⟨ha, hun⟩ hs
  exact ⟨hu.step ha hs, hn.step hu ha hun hs⟩

theorem unaffected_run
    (h : Observed (Step J W R) Harmless observe (.start disk inner replay) bs s) :
    Unaffected J W R disk inner replay bs s := by
  refine ⟨?_, (kept_run h).2⟩
  refine (h.erase Tasks.calm Tasks.unasked_start (fun hu hC hs => hu.step hC.1 hs) ?_).2
  rintro s a s' hu ⟨ha, hun⟩ hs
  rcases calm_step hu ha hun hs with hsilent | hsame
  · exact .inl hsilent
  · exact .inr ⟨a, hsame⟩

/-- **Updates that do not ask for shutdown lose nothing** in a run in which none is taken at the
send of a replayed item or at a push; and the next step loses nothing exactly if none is taken
there. -/
theorem unasked_unaffected
    (h : Observed (Step J W R) Harmless observe (.start disk inner replay) bs s) :
    Unaffected J W R disk inner replay bs s ∧
      ∀ a s', FalseUpdates s a → Step J W R s a s' →
        (Unaffected J W R disk inner replay (bs ++ (observe s a).toList) s' ↔
          Undisturbed s a) := by
  refine ⟨unaffected_run h, fun a s' ha hs => ⟨fun haff => ?_, fun hun => ?_⟩⟩
  · obtain ⟨hu, hn⟩ := kept_run h
    exact hn.undisturbed hu hs haff.kept
  · exact unaffected_run (.snoc h ⟨ha, hun⟩ hs)

end Run

/-! ### Two runs -/

def entryA : Entry := { seq := 1, adif := Wsjtx.adifA, receivedAt := 0 }

def entryB : Entry := { seq := 2, adif := Wsjtx.adifA, receivedAt := 0 }

def itemA : Wsjtx.QueueItem := Wsjtx.replayItem entryA.pair

def itemB : Wsjtx.QueueItem := Wsjtx.replayItem entryB.pair

/-- A file with two QSOs. -/
def twoDisk : Disk := ⟨some (utf8 (encode json [entryA, entryB])), []⟩

def twoInner : Inner := ⟨[entryA, entryB], 3⟩

def twoReplay : Replay := [entryA.pair, entryB.pair]

theorem open_twoDisk : QsoQueue.open json twoDisk {} = (.ok (twoInner, twoReplay), twoDisk) :=
  open_of_lists json_strict.toLawful rfl (.inr rfl)

def snapshot : Poller.Snapshot Nat := ⟨1, Poller.usbState, 0⟩

/-- The first QSO and the rig's state are being pushed and the second QSO sent, and an update has
come. -/
def updated : Tasks Nat where
  pipeline.disk := twoDisk
  pipeline.proc := some {
    inner := twoInner
    listener := .replaying [entryB.pair]
    listenerSeen := 0
    worker := .pushing itemA
    workerSeen := 0
    chan := []
    shutdown := ⟨false, 1, false⟩ }
  poller :=
    { (Poller.World.start : Poller.World Nat) with
      shutdown := ⟨false, 1, false⟩
      states := ⟨some Poller.usbState, 1, false⟩
      ticker := .ticking
      worker := .pushing snapshot .initial
      statesSeen := 1 }

/-- What is seen until then. -/
def updatedSeen : List (Wsjtx.Observation ⊕ Poller.Act Nat) :=
  [.inl (.act (.sent itemA)), .inl (.act (.taken itemA)), .inr (.published Poller.usbState),
    .inr (.started snapshot .initial)]

theorem updated_run : Observed (Step json Wsjtx.createdJson wholePower) Harmless observe
    (.start twoDisk twoInner twoReplay) updatedSeen updated := by
  refine .silent (.pipeline (.listenerStarts rfl rfl) rfl trivial)
    ⟨trivial, .of_listener nofun⟩ rfl ?_
  refine .silent (.pipeline (.workerStarts rfl rfl) rfl trivial)
    ⟨trivial, .of_worker nofun⟩ rfl ?_
  refine .seen (.pipeline (.replaySent rfl nofun (by decide)) rfl trivial)
    ⟨trivial, .of_other nofun nofun⟩ rfl ?_
  refine .seen (.pipeline (.taken rfl rfl) rfl trivial) ⟨trivial, .of_other nofun nofun⟩ rfl ?_
  refine .silent (.poller (.runStarts rfl rfl) trivial rfl) ⟨trivial, trivial⟩ rfl ?_
  refine .silent (.poller (.workerStarts rfl rfl) trivial rfl) ⟨trivial, trivial⟩ rfl ?_
  refine .seen (.poller (.published _ rfl) trivial rfl) ⟨trivial, trivial⟩ rfl ?_
  refine .seen (.poller (.started rfl rfl rfl (Nat.le_refl 0) rfl) trivial rfl)
    ⟨trivial, trivial⟩ rfl ?_
  refine .silent (.send false (.shutdown false) (.shutdown false)) ⟨rfl, trivial⟩ rfl ?_
  exact .nil

/-- Both QSOs sent, the first handled, and the rig's state pushed. -/
def handledEnd : Tasks Nat where
  pipeline.disk := twoDisk
  pipeline.proc := some {
    inner := twoInner
    listener := .receiving
    listenerSeen := 1
    worker := .removing 1
    workerSeen := 0
    chan := [itemB]
    shutdown := ⟨false, 1, false⟩ }
  poller := { updated.poller with
    worker := .idle
    deduper := ⟨some (Poller.keyOf wholePower Poller.usbState), some 0⟩ }

/-- The send and the pushes complete first, and the listener takes the update in its loop. -/
theorem update_unaffected :
    Unaffected json Wsjtx.createdJson wholePower twoDisk twoInner twoReplay
      (updatedSeen ++ [.inl (.act (.sent itemB)),
        .inl (.act (.posted itemA (.fixed ['1']) [Wsjtx.createdAnswer] (.ok ()))),
        .inl (.handled itemA (.ok ())),
        .inr (.pushed snapshot [⟨.answered 200 none, true⟩] (.ok ()))]) handledEnd := by
  refine (unasked_unaffected (updated_run.trans ?_)).1
  have hsum := Wsjtx.summarizeAdif_of_receive Wsjtx.receive_datagramA
  refine .seen (.pipeline (.replaySent rfl nofun (by decide)) rfl trivial)
    ⟨trivial, .of_other nofun nofun⟩ rfl ?_
  refine .silent (.pipeline (.replayDone rfl) rfl trivial) ⟨trivial, .of_listener nofun⟩ rfl ?_
  refine .silent (.pipeline (.listenerNotified rfl rfl) rfl trivial)
    ⟨trivial, .of_listener nofun⟩ rfl ?_
  refine .seen (.pipeline (.posted rfl Wsjtx.pushOne_created) rfl trivial)
    ⟨trivial, .of_other nofun nofun⟩ rfl ?_
  refine .seen (.pipeline (.finished rfl hsum) rfl trivial) ⟨trivial, .of_worker nofun⟩ rfl ?_
  refine .seen (.poller (.pushed rfl (fun x hx _ => ?_) rfl) trivial rfl) ⟨trivial, trivial⟩ rfl ?_
  · rw [List.mem_singleton.mp hx]
  exact .nil

/-- The send and both pushes dropped. -/
def droppedEnd : Tasks Nat where
  pipeline.disk := twoDisk
  pipeline.proc := some {
    inner := twoInner
    listener := .receiving
    listenerSeen := 1
    worker := .idle
    workerSeen := 1
    chan := []
    shutdown := ⟨false, 1, false⟩ }
  poller := { updated.poller with worker := .idle, workerSeen := 1 }

theorem dropped_run : Observed (Step json Wsjtx.createdJson wholePower) FalseUpdates observe
    (.start twoDisk twoInner twoReplay) (updatedSeen ++ [.inr (.cancelled snapshot [])])
    droppedEnd := by
  refine (updated_run.mono fun _ _ h => h.1).trans ?_
  refine .silent (.pipeline (.replayNotified rfl rfl) rfl trivial) trivial rfl ?_
  refine .silent (.pipeline (.replayDone rfl) rfl trivial) trivial rfl ?_
  refine .silent (.pipeline (.pushNotified rfl rfl) rfl trivial) trivial rfl ?_
  refine .seen (.poller (.cancelled rfl ⟨Nat.zero_le _, fun _ hx => (by cases hx)⟩ rfl)
    trivial rfl) trivial rfl ?_
  exact .nil

/-- **A `false` on the shutdown channel** drops a QSO at the send, one at its push, and a push of
the rig's state. -/
theorem update_loses : ¬ ∀ (F : Type) (J : SerdeJson) (W : WavelogJson) (R : F32 F)
    (disk disk' : Disk) (io : OpenIo) (inner : Inner) (replay : Replay)
    (bs : List (Wsjtx.Observation ⊕ Poller.Act F)) (s : Tasks F), J.Strict →
    QsoQueue.open J disk io = (.ok (inner, replay), disk') →
    Observed (Step J W R) FalseUpdates observe (.start disk' inner replay) bs s →
      Unaffected J W R disk' inner replay bs s := by
  intro hall
  have haff := hall _ _ _ _ _ _ _ _ _ _ _ json_strict open_twoDisk dropped_run
  -- an item is taken, and neither pushed nor in a push
  have hpushed := (haff.kept.pipeline _ rfl).pushed
  cases hpushed

end WavelogRelay.Shutdown
