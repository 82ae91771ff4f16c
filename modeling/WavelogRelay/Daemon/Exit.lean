import WavelogRelay.Daemon.Progress

/-!
# Daemon — the exit

* `Ended.step`: a task that has ended stays so.
* `shutdown_completes`: once the signal has come `run_daemon` returns, whatever the peers do.
* `clean_exit`: when it has, nobody is left waiting.
-/

namespace WavelogRelay
open Library

/-! ### What has ended -/

theorem Rig.phase_stays {F : Type} {R : Rig.F32 F} {w w' : Rig.World F} {a : Rig.Act F}
    (h : w.phase = .stopped) (hs : Rig.Step R w a w') : w'.phase = .stopped := by
  cases hs with
  | requested | abandoned | sent | handlesDropped => exact h
  | drained hp => cases h.symm.trans hp
  | connected hp | connectFailed hp | received hp | wire hp | served hp | lost hp | woke hp
  | stoppedServing hp | stoppedSleeping hp => cases h.symm.trans hp

theorem Listener.phase_stays {κ F : Type} [DecidableEq κ] {R : Rig.F32 F}
    {state : Listener.AppState} {request : κ → Listener.Request} {s s' : Listener.System κ F}
    {a : Listener.Act κ F} (h : s.rig.phase = .stopped)
    (hs : Listener.Step R state request s a s') : s'.rig.phase = .stopped := by
  cases hs with
  | refused | dispatched | resumed | dropped => exact h
  | rig hs => exact Rig.phase_stays h hs

namespace Relay

variable {κ ν F : Type} [DecidableEq κ] [DecidableEq ν] {P : Setup κ F} {w w' : World κ ν F}
  {a : Act κ ν F}

omit [DecidableEq κ] [DecidableEq ν] in
/-- A worker that has stopped, or was never spawned, takes no step. -/
theorem not_worker_step {R : Rig.F32 F} {q q' : Poller.World F} {a : Poller.Act F}
    (h : q.worker = .stopped ∨ q.worker = .unspawned) (hs : Poller.Step R q a q') :
    ¬ ofWorker a := by
  intro ha
  have hno : ∀ x, q.worker = x → x ≠ .stopped → x ≠ .unspawned → False := fun x hx h₁ h₂ =>
    h.elim (fun h => h₁ (hx.symm.trans h)) fun h => h₂ (hx.symm.trans h)
  cases hs with
  | shutdown | senderDropped | runReturns | runStarts | published | pollFailed => exact ha
  | tickerNotified => exact ha
  | workerReturns hw | workerStarts hw | statesClosed hw | emptied hw | skipped hw | started hw
  | pushed hw | cancelled hw | workerNotified hw => exact hno _ hw nofun nofun

theorem World.Returned.step (h : w.Returned) (hs : Step P w a w') : w'.Returned := by
  obtain ⟨ht, hw⟩ := h
  cases hs with
  | elapsed | listener | conn | shutdown | senderDropped => exact ⟨ht, hw⟩
  | returned h | started h | asked h | published _ h | failed h | stopped h | notified h =>
      cases ht.symm.trans h
  | worker hs ha => exact absurd ha (not_worker_step hw hs)

theorem phase_stays (h : w.listener.rig.phase = .stopped) (hs : Step P w a w') :
    w'.listener.rig.phase = .stopped := by
  cases ha : a.toListener with
  | none => exact hs.listener_eq ha ▸ h
  | some b => exact Listener.phase_stays h (hs.toListener ha)

end Relay

namespace Wsjtx
open Queue (Disk SerdeJson)
open Wavelog (WavelogJson)

variable {J : SerdeJson} {W : WavelogJson} {disk disk' : Disk} {p p' : Proc} {a : Act}

theorem listener_stays (h : p.listener = .stopped)
    (hs : Step J W ⟨disk, some p⟩ a ⟨disk', some p'⟩) : p'.listener = .stopped := by
  cases hs with
  | listenerReturns | replayClosed | tryClosed => rfl
  | listenerStarts hl | replaySent hl | replayNotified hl | replayDone hl | recvFailed hl
  | ignored _ hl | received hl | appended hl | trySent hl | tryFull hl | listenerNotified hl =>
      cases h.symm.trans hl
  | shutdown | senderDropped | workerReturns | workerStarts | taken | chanEnded | posted | finished
  | removed => exact h
  | workerNotified | pushNotified => split <;> exact h

theorem worker_stays (h : p.worker = .stopped)
    (hs : Step J W ⟨disk, some p⟩ a ⟨disk', some p'⟩) : p'.worker = .stopped := by
  cases hs with
  | workerReturns | chanEnded => rfl
  | workerStarts hw | taken hw | posted hw | finished hw | removed hw | workerNotified hw
  | pushNotified hw => cases h.symm.trans hw
  | shutdown | senderDropped | listenerReturns | listenerStarts | replaySent | replayClosed
  | replayNotified | replayDone | recvFailed | ignored | received | appended | trySent | tryFull
  | tryClosed | listenerNotified => exact h

end Wsjtx

namespace Daemon

variable {κ ν F : Type} [DecidableEq κ] [DecidableEq ν] {P : Setup κ F} {w w' : World κ ν F}
  {a : Act κ ν F}

/-- What a task of the pipeline keeps, if its process goes on. -/
theorem pipeline_stays {Q : Wsjtx.Proc → Prop} (hm : w.main.Asked) (hs : Step P w a w')
    (hkeep : ∀ {disk disk' p b p'}, Q p →
      Wsjtx.Step P.serde P.wavelog ⟨disk, some p⟩ b ⟨disk', some p'⟩ → Q p')
    (h : ∀ p, w.pipeline.proc = some p → Q p) : ∀ p, w'.pipeline.proc = some p → Q p := by
  obtain ⟨relay, ⟨disk, proc⟩, http, ws, main⟩ := w
  cases hs with
  | opened hm' | openFailed hm' | signal hm' =>
      rw [hm'] at hm
      exact hm.elim
  | joined | relay | http | ws => exact h
  | aborted _ hs => cases hs <;> exact fun _ hp => by cases hp
  | @pipeline b p _ hs _ hsame hproc =>
      obtain _ | p₀ := proc
      · cases hs <;> exact hsame.elim
      obtain ⟨disk', _ | p'⟩ := p
      · cases hproc
      rintro p ⟨⟩
      exact hkeep (h p₀ rfl) hs

/-- **A task that has ended stays so.** -/
theorem Ended.step {task : Task} (h : w.Ended task) (hm : w.main.Asked) (hs : Step P w a w') :
    w'.Ended task := by
  have hmain : ∀ m, w.main = m → m.Asked := fun m h => h ▸ hm
  cases task with
  | poller =>
      cases hs with
      | relay _ hs => exact h.step hs
      | signal hm' => exact (hmain _ hm').elim
      | _ => exact h
  | listener =>
      cases hs with
      | http _ hs =>
          have h : w.http = .returned := h
          rw [h] at hs
          cases hs
      | _ => exact h
  | ws =>
      cases hs with
      | ws _ hs =>
          have h : w.ws = .returned := h
          rw [h] at hs
          cases hs
      | _ => exact h
  | wsjtxListener =>
      exact pipeline_stays (Q := fun p => p.listener = .stopped) hm hs Wsjtx.listener_stays h
  | wsjtxWorker =>
      exact pipeline_stays (Q := fun p => p.worker = .stopped) hm hs Wsjtx.worker_stays h
  | rig =>
      cases hs with
      | relay _ hs => exact Relay.phase_stays h hs
      | _ => exact h

/-! ### The tasks are joined in order -/

/-- The tasks that `run_daemon` has joined have ended. -/
def World.Joined (w : World κ ν F) : Prop :=
  ∀ task, w.main.left < (Main.joining task).left → w.Ended task

theorem Main.left_of_asked {m : Main} (h : m.Asked) :
    (∃ task, m = .joining task) ∨ m = .returned := by
  cases m with
  | joining task => exact .inl ⟨task, rfl⟩
  | returned => exact .inr rfl
  | opening | waiting | failed | aborted => exact h.elim

theorem Task.next_lt {task task' : Task}
    (h : task.next.left < (Main.joining task').left) :
    task' = task ∨ (Main.joining task).left < (Main.joining task').left := by
  revert h
  cases task <;> cases task' <;> decide

theorem Task.left_le (task : Task) : (Main.joining task).left ≤ (Main.joining .poller).left := by
  cases task <;> decide

theorem World.Joined.step (h : w.Joined) (hm : w.main.Asked) (hm' : w'.main.Asked)
    (hs : Step P w a w') : w'.Joined := by
  intro task htask
  have hold : w.main.left < (Main.joining task).left → w'.Ended task := fun hlt =>
    Ended.step (h task hlt) hm hs
  cases hs with
  | opened | openFailed | aborted => exact hm'.elim
  | signal hm₀ =>
      rw [hm₀] at hm
      exact hm.elim
  | joined hm₀ ht =>
      rcases Task.next_lt htask with rfl | hlt
      · exact ht
      · exact hold (by rw [hm₀]; exact hlt)
  | relay | http | ws | pipeline => exact hold htask

/-! ### Something can be done -/

theorem canGo (h : Sound P w) (hj : w.Joined) {task : Task} (hm : w.main = .joining task) :
    CanGo P w := by
  have hruns : w.main.Runs := hm ▸ trivial
  have hv := h.attends.asked (hm ▸ trivial)
  by_cases ht : w.Ended task
  · exact ⟨_, _, .joined hm ht, rfl, trivial⟩
  cases task with
  | poller => exact canGo_poller h hruns hv ht
  | listener => exact canGo_http h hruns hv ht
  | ws =>
      obtain ⟨x, hs⟩ := Serve.exists_step h.attends.ws hv ht True.intro
      exact ⟨_, _, .ws hruns hs, rfl, trivial⟩
  | wsjtxListener => exact canGo_wsjtxListener h hruns hv ht
  | wsjtxWorker => exact canGo_wsjtxWorker h hruns hv ht
  | rig =>
      have hlt : ∀ task, task ≠ .rig → w.Ended task := fun task hne => hj task (by
        rw [hm]
        cases task with
        | rig => exact absurd rfl hne
        | _ => exact Nat.lt_of_sub_eq_succ rfl)
      exact canGo_actor h hruns (hlt .poller nofun) (hlt .listener nofun) ht

section Runs

variable {C : World κ ν F → Act κ ν F → Prop} {disk : Queue.Disk} {tr : List (Act κ ν F)}

theorem sound_run (h : Run (Step P) C (.start P disk) tr w) : Sound P w where
  attends := attends_run h
  live := live_run h
  due := (relay_run h).invariant (I := fun _ r => r.Due) .start fun _ ih _ hs => ih.step hs
  reply hl hr := Relay.reply_of_poll (relay_run h) hl hr

theorem joined_run (h : Run (Step P) C (.start P disk) tr w) : w.main.Asked → w.Joined := by
  refine h.invariant (I := fun _ w => w.main.Asked → w.Joined) ?_ ?_
  · intro hm
    simp only [World.start] at hm
    split at hm <;> exact hm.elim
  · intro tr w a w' _ ih _ hs hm'
    by_cases hm : w.main.Asked
    · exact (ih hm).step hm hm' hs
    -- the first task is about to be joined
    · cases hs with
      | signal => exact fun task hlt => absurd hlt (Nat.not_lt_of_le task.left_le)
      | joined h => exact absurd (h ▸ trivial) hm
      | opened | openFailed | aborted => exact hm'.elim
      | relay | http | ws | pipeline => exact absurd hm' hm

end Runs

/-! ### The shutdown -/

/-- The signal has come, or a panic has ended the process since. -/
def Main.Closing (m : Main) : Prop := m.Asked ∨ m = .aborted

theorem Step.runs (hs : Step P w a w') : w.main.Runs := by
  cases hs with
  | opened h | openFailed h | signal h | joined h => exact h ▸ trivial
  | aborted h | relay h | http h | ws h | pipeline h => exact h

theorem Step.asked (hs : Step P w a w') (h : w.main.Closing) : w.main.Asked :=
  h.resolve_right fun heq => by
    have hr := hs.runs
    rw [heq] at hr
    exact hr

theorem Main.Closing.step (h : w.main.Closing) (hs : Step P w a w') : w'.main.Closing := by
  have hm := hs.asked h
  cases hs with
  | opened h | openFailed h | signal h =>
      rw [h] at hm
      exact hm.elim
  | joined => exact .inl (Task.next_asked _)
  | aborted => exact .inr rfl
  | relay | http | ws | pipeline => exact .inl hm

omit [DecidableEq κ] [DecidableEq ν] in
/-- What a task does of its own accord brings no work. -/
theorem Act.work_of_own (h : a.own = true) : a.work = false := by
  cases a with
  | relay b =>
      cases b with
      | listener c =>
          cases c with
          | dispatched => cases h
          | rig => exact congrArg not h
          | _ => rfl
      | asked => cases h
      | _ => rfl
  | pipeline b => exact congrArg not h
  | _ => rfl

/-- A state that is reached after the signal. -/
def Closes (P : Setup κ F) (w : World κ ν F) : Prop :=
  w.main.Closing ∧ ∃ disk tr, Run (Step P) Always (.start P disk) tr w

theorem Closes.step (h : Closes P w) (hs : Step P w a w') : Closes P w' := by
  obtain ⟨hm, disk, tr, hrun⟩ := h
  exact ⟨hm.step hs, disk, _, hrun.extend hs trivial⟩

theorem Closes.run {C : World κ ν F → Act κ ν F → Prop} {tr : List (Act κ ν F)}
    (h : Closes P w) (hr : Run (Step P) C w tr w') : Closes P w' :=
  hr.invariant (I := fun _ w => Closes P w) h fun _ ih _ hs => ih.step hs

theorem Closes.canGo (h : Closes P w) (hruns : w.main.Runs) : CanGo P w := by
  obtain ⟨hm, disk, tr, hrun⟩ := h
  have hasked : w.main.Asked := hm.resolve_right fun heq => by
    rw [heq] at hruns
    exact hruns
  rcases Main.left_of_asked hasked with ⟨task, htask⟩ | hret
  · exact Daemon.canGo (sound_run hrun) (joined_run hrun hasked) htask
  · rw [hret] at hruns
    exact hruns.elim

theorem Closes.bound_step {n : Nat} (h : Closes P w) (hs : Step P w a w') (hb : Bound n w) :
    ∃ m, Bound m w' ∧ m + a.own.toNat ≤ n + 16 * a.work.toNat := by
  obtain ⟨hm, disk, tr, hrun⟩ := h
  exact hb.step (attends_run hrun) (hs.asked hm) hs

/-- Of its own accord, and without a peer. -/
def Alone (_ : World κ ν F) (a : Act κ ν F) : Prop := a.own = true ∧ a.Unaided

/-- What holds from the signal on. -/
structure ShutdownCompletes (P : Setup κ F) (w : World κ ν F) : Prop where
  /-- The tasks take a bounded number of steps, but for those that ticks and requests bring. -/
  bounded : ∃ n, ∀ tr w', Run (Step P) Always w tr w' →
    tr.countP Act.own ≤ n + 16 * tr.countP Act.work
  /-- Until `run_daemon` has ended some task has a step to take, that needs no peer. -/
  progress : ∀ tr w', Run (Step P) Always w tr w' → w'.main.Runs →
    ∃ a w'', Step P w' a w'' ∧ Alone w' a
  /-- By such steps it ends. -/
  ends : ∀ tr w', Run (Step P) Always w tr w' →
    ∃ tr' w'', Run (Step P) Alone w' tr' w'' ∧ ¬ w''.main.Runs

/-- **Once the signal has come, `run_daemon` ends**, whatever the peers do. -/
theorem shutdown_completes {disk : Queue.Disk} {tr : List (Act κ ν F)}
    (h : Run (Step P) Always (.start P disk) tr w) (hm : w.main.Asked) :
    ShutdownCompletes P w := by
  have hcl : Closes P w := ⟨.inl hm, disk, tr, h⟩
  refine ⟨?_, fun tr' w' h' hruns => (hcl.run h').canGo hruns, fun tr' w' h' => ?_⟩
  · obtain ⟨n, hn⟩ := exists_bound h
    refine ⟨n, fun tr' w' h' => ?_⟩
    obtain ⟨m, -, hle⟩ := h'.spent (fun n w => Bound n w ∧ Closes P w) Act.own Act.work 16
      (fun _ hs hb => by
        obtain ⟨m, hm, hle⟩ := hb.2.bound_step hs hb.1
        exact ⟨m, ⟨hm, hb.2.step hs⟩, hle⟩) ⟨hn, hcl⟩
    exact Nat.le_trans (Nat.le_add_left _ m) hle
  · obtain ⟨n, hn⟩ := exists_bound (h.trans h')
    refine Run.exists_done Bound (Closes P) (fun w => ¬ w.main.Runs) (fun hc _ hs => hc.step hs)
      ?_ (hcl.run h') hn
    intro w n hc hb hruns
    obtain ⟨a, w', hs, hown, hun⟩ := hc.canGo (not_not.mp hruns)
    obtain ⟨m, hm, hle⟩ := hc.bound_step hs hb
    rw [hown, Act.work_of_own hown] at hle
    exact ⟨a, w', m, hs, ⟨hown, hun⟩, hle, hm⟩

theorem atRest_completes :
    ShutdownCompletes wholeSetup { atRest.sendTrue with main := .joining .poller } :=
  shutdown_completes (atRest_run.extend (.signal rfl) trivial) trivial

/-! ### The exit -/

omit [DecidableEq ν] in
/-- A handler that waits for the rig has waited before, or has just asked. -/
theorem setting_of_step {R : Rig.F32 F} {state : Listener.AppState}
    {request : κ → Listener.Request} {s s' : Listener.System κ F} {b : Listener.Act κ F}
    (hs : Listener.Step R state request s b s') (hb : ∀ c job, b ≠ .dispatched c job) {c : κ}
    {job : Rig.Job} (hc : s'.stage c = .setting job) : s.stage c = .setting job := by
  cases hs with
  | refused | resumed | dropped =>
      exact (Listener.System.setting_of_setStage (fun _ h => by cases h) hc).2
  | dispatched => exact absurd rfl (hb _ _)
  | rig => exact hc

omit [DecidableEq κ] [DecidableEq ν] in
theorem Serve.Step.drained {shutdown : Watch Bool} {Drained : Prop} {x x' : Serve}
    (hs : Serve.Step shutdown Drained x x') (hx : x' = .returned) : Drained := by
  cases hs with
  | notified => cases hx
  | returned hd => exact hd

/-- A server that has returned has no handlers left. -/
theorem drained_run {C : World κ ν F → Act κ ν F → Prop} {disk : Queue.Disk}
    {tr : List (Act κ ν F)} (h : Run (Step P) C (.start P disk) tr w) :
    w.http = .returned → w.Drained := by
  refine h.invariant (I := fun _ w => w.http = .returned → w.Drained) (fun h => by cases h) ?_
  intro tr w a w' _ ih _ hs hhttp
  cases hs with
  | opened | openFailed | signal | joined | aborted | ws | pipeline => exact ih hhttp
  | http _ hs => exact hs.drained hhttp
  | relay _ hs ha =>
      intro c job hc
      cases hs with
      | listener hs =>
          refine ih hhttp c job (setting_of_step hs ?_ hc)
          rintro c job rfl
          exact ha.2 hhttp
      | asked _ _ _ hs => exact ih hhttp c job (setting_of_step hs nofun hc)
      | _ => exact ih hhttp c job hc

/-- What `run_daemon` leaves. -/
structure CleanExit (tr : List (Act κ ν F)) (w : World κ ν F) : Prop where
  ended : ∀ task, w.Ended task
  handlers : w.Drained
  requests : ∀ job ∈ Rig.requested (Relay.toRig (toRelay tr)),
    job ∈ Rig.abandoned (Relay.toRig (toRelay tr)) ∨
      ∃ res, (job, res) ∈ Rig.answers (Relay.toRig (toRelay tr))

/-- **When `run_daemon` returns**, each task has ended, and each request to the rig has been
answered or given up. -/
theorem clean_exit {disk : Queue.Disk} {tr : List (Act κ ν F)}
    (h : Run (Step P) Always (.start P disk) tr w) (hm : w.main = .returned) : CleanExit tr w := by
  have hend : ∀ task, w.Ended task := fun task =>
    joined_run h (hm ▸ trivial) task (by rw [hm]; exact task.left_pos)
  refine ⟨hend, drained_run h (hend .listener), fun job hjob => ?_⟩
  have hstop : w.relay.listener.rig.phase = .stopped := hend .rig
  have hlive := live_run h
  obtain ⟨hh, hc⟩ := hlive.stopped hstop
  have hpending : w.relay.listener.rig.pending = [] :=
    Rig.pending_eq_nil.mpr ⟨hlive.dropped hh, hc, by rw [hstop]; rfl⟩
  exact (Relay.answered_run (relay_run h)).counts.answered hpending hjob

/-- The signal comes during a poll, and the rig is gone. -/
def closingActs : List (Act Unit Unit Nat) :=
  [.relay (.elapsed nanosPerSec), .relay (.asked Relay.pollJob), .signal,
    .relay (Relay.rigAct (.sent Relay.pollJob)), .relay (Relay.rigAct (.received 0 Relay.pollJob)),
    .relay (Relay.rigAct (.wire 0 ⟨.send "f".toList, .error .timedOut⟩)),
    .relay (Relay.rigAct (.lost 0 Relay.pollJob .timedOut)),
    .relay (.failed Relay.pollJob .disconnected), .relay .stopped, .relay (.worker .worker),
    .joined .poller, .http, .http, .joined .listener, .ws, .ws, .joined .ws, .pipeline .listener,
    .joined .wsjtxListener, .pipeline .worker, .joined .wsjtxWorker,
    .relay (Relay.rigAct .handlesDropped), .relay (Relay.rigAct .stopped), .joined .rig]

def closed : Watch Bool := ⟨true, 1, false⟩

/-- All that is left of it. -/
def exited : World Unit Unit Nat where
  relay :=
    { atRest.relay with
      listener :=
        { rig :=
            { (Rig.World.spawn : Rig.World Nat).failed .unresponsive with
              requests := 1
              handles := false
              conns := 1
              phase := .stopped }
          record := [(Relay.pollJob, ⟨.send "f".toList, .error .timedOut⟩)]
          replies := [(Relay.pollJob, .error .disconnected)]
          stage := fun _ => .arrived }
      poller :=
        { (Poller.World.start : Poller.World Nat) with
          shutdown := closed
          states := ⟨none, 0, true⟩
          ticker := .stopped
          tickerSeen := 1
          worker := .stopped
          workerSeen := 1 }
      ws := { atRest.relay.ws with shutdown := closed }
      loop := .sleeping (0 + nanosPerSec + nanosPerSec)
      clock := 0 + nanosPerSec }
  pipeline.disk := ⟨none, []⟩
  pipeline.proc := some
    { Wsjtx.Proc.waiting ⟨[], 1⟩ with
      listener := .stopped
      listenerSeen := 1
      worker := .stopped
      workerSeen := 1
      shutdown := closed }
  http := .returned
  ws := .returned
  main := .returned

theorem exited_run : Run (Step wholeSetup) Always atRest closingActs exited := by
  refine .cons trivial (.relay trivial (.elapsed _) trivial) ?_
  refine .cons trivial (.relay trivial
    (.asked rfl rfl (Nat.le_refl _) (Relay.listen_of_rig (.requested _ rfl) rfl)) trivial) ?_
  refine .cons trivial (.signal rfl) ?_
  refine .cons trivial (.relay trivial
    (.of_rig (.sent (l := []) rfl (by decide)) rfl trivial) trivial) ?_
  refine .cons trivial (.relay trivial (.of_rig (.received rfl rfl) rfl trivial) trivial) ?_
  refine .cons trivial (.relay trivial
    (.of_rig (.wire (q := .send _) rfl (.error .timedOut)) rfl trivial) trivial) ?_
  refine .cons trivial (.relay trivial (.of_rig (.lost rfl) rfl trivial) trivial) ?_
  refine .cons trivial (.relay trivial (.failed rfl rfl (.head _)) trivial) ?_
  refine .cons trivial (.relay trivial (.stopped rfl rfl rfl rfl) trivial) ?_
  refine .cons trivial (.relay trivial (.worker (.workerNotified rfl rfl) trivial) trivial) ?_
  refine .cons trivial (.joined rfl ⟨rfl, .inl rfl⟩) ?_
  refine .cons trivial (.http trivial (.notified (.notified rfl))) ?_
  refine .cons trivial (.http trivial (.returned nofun)) ?_
  refine .cons trivial (.joined rfl rfl) ?_
  refine .cons trivial (.ws trivial (.notified (.notified rfl))) ?_
  refine .cons trivial (.ws trivial (.returned trivial)) ?_
  refine .cons trivial (.joined rfl rfl) ?_
  refine .cons trivial (.pipeline trivial (.listenerNotified rfl rfl) rfl trivial rfl nofun) ?_
  refine .cons trivial (.joined rfl fun p hp => ?_) ?_
  · cases hp
    rfl
  refine .cons trivial (.pipeline trivial (.workerNotified rfl rfl) rfl trivial rfl nofun) ?_
  refine .cons trivial (.joined rfl fun p hp => ?_) ?_
  · cases hp
    rfl
  refine .cons trivial (.relay trivial
    (.of_rig (.handlesDropped rfl rfl) rfl ⟨rfl, .inl rfl⟩) rfl) ?_
  refine .cons trivial (.relay trivial
    (.of_rig (.stoppedSleeping rfl rfl rfl) rfl trivial) trivial) ?_
  refine .cons trivial (.joined rfl rfl) ?_
  exact .nil

theorem exited_clean : CleanExit (restActs ++ closingActs) exited :=
  clean_exit (atRest_run.trans exited_run) rfl

end Daemon

end WavelogRelay
