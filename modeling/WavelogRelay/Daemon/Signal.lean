import WavelogRelay.Daemon.Awake
import WavelogRelay.Relay.EndToEnd

/-!
# Daemon — the signal

Whatever the order of the steps, the signal is what ends the tasks.

* `Attends.step`, `Up.step`: what the parts keep, the daemon keeps.
* `signal_stops`: until the signal no task ends, and no `changed` returns; after it a task that is
  at its `changed` can stop at once, and one that is busy elsewhere finds its next `changed` ready,
  and told to stop.
-/

namespace WavelogRelay
open Library

/-! ### The daemon -/

namespace Daemon

variable {κ ν F : Type}

/-- `run_daemon` has not been told to stop. -/
def Main.Waits : Main → Prop
  | .opening | .waiting => True
  | .joining _ | .returned | .failed _ | .aborted => False

theorem Task.next_asked (task : Task) : task.next.Asked := by cases task <;> trivial

theorem Task.next_not_waits (task : Task) : ¬ task.next.Waits := by cases task <;> nofun

/-- Each part watches the one channel, on which `true` is sent at the signal. -/
structure World.Attends (w : World κ ν F) : Prop where
  one : ∀ p, w.pipeline.proc = some p → p.shutdown = w.shutdown
  alive : w.shutdown.closed = false
  waits : w.main.Waits → w.shutdown = .new false
  asked : w.main.Asked → w.shutdown.value = true
  relay : w.relay.Attends
  pipeline : ∀ p, w.pipeline.proc = some p → p.Attends
  http : w.http.Attends w.shutdown
  ws : w.ws.Attends w.shutdown

variable {P : Setup κ F}

theorem World.Attends.start {disk : Queue.Disk} : (World.start P disk : World κ ν F).Attends where
  one _ hp := by cases hp
  alive := rfl
  waits _ := rfl
  asked h := by
    simp only [World.start] at h
    split at h <;> exact h.elim
  relay := .start
  pipeline _ hp := by cases hp
  http := trivial
  ws := by
    simp only [World.start]
    split <;> trivial

theorem World.Allows.quiet {w : World κ ν F} {b : Relay.Act κ ν F} (h : w.Allows P b) :
    b.Quiet := by
  cases b with
  | shutdown | senderDropped => exact h
  | _ => trivial

variable [DecidableEq κ] [DecidableEq ν] {w w' : World κ ν F} {a : Act κ ν F}

theorem World.Attends.step (h : w.Attends) (hs : Step P w a w') : w'.Attends := by
  obtain ⟨relay, pipeline, http, ws, main⟩ := w
  cases hs with
  | opened hm hs =>
      cases hs
      have hnew := h.waits (by rw [hm]; trivial)
      exact { h with
        one := fun p hp => by cases hp; exact hnew.symm
        waits := fun _ => hnew
        asked := fun hw => hw.elim
        pipeline := fun p hp => by cases hp; exact .spawn }
  | openFailed hm hs =>
      cases hs
      exact { h with
        one := fun _ hp => by cases hp
        waits := fun hw => hw.elim
        asked := fun hw => hw.elim
        pipeline := fun _ hp => by cases hp }
  | signal hm =>
      have hsend : ∀ p, pipeline.proc.map (fun p => { p with shutdown := p.shutdown.send true }) =
          some p → p.shutdown = relay.poller.shutdown.send true ∧ p.Attends := by
        intro p hp
        obtain ⟨p₀, hp₀, rfl⟩ := Option.map_eq_some_iff.mp hp
        obtain ⟨hl, hw⟩ := h.pipeline p₀ hp₀
        exact ⟨congrArg (·.send true) (h.one p₀ hp₀), fun h => (hl h).send true,
          fun h => (hw h).send true⟩
      exact {
        one := fun p hp => (hsend p hp).1
        alive := h.alive
        waits := fun hw => hw.elim
        asked := fun _ => rfl
        relay := h.relay.step (P := P.toSetup) (.shutdown true)
        pipeline := fun p hp => (hsend p hp).2
        http := h.http.send true
        ws := h.ws.send true }
  | joined hm ht =>
      exact { h with
        waits := fun hw => (Task.next_not_waits _ hw).elim
        asked := fun _ => h.asked (by rw [hm]; trivial) }
  | aborted hm hs =>
      cases hs <;> exact { h with
        one := fun _ hp => by cases hp
        waits := fun hw => hw.elim
        asked := fun hw => hw.elim
        pipeline := fun _ hp => by cases hp }
  | relay hm hs ha =>
      have hsame := Relay.shutdown_of_step hs ha.quiet
      exact {
        one := fun p hp => (h.one p hp).trans hsame.symm
        alive := (congrArg Watch.closed hsame).trans h.alive
        waits := fun hw => hsame.trans (h.waits hw)
        asked := fun hw => (congrArg Watch.value hsame).trans (h.asked hw)
        relay := h.relay.step hs
        pipeline := h.pipeline
        http := (congrArg (Serve.Attends · http) hsame).mpr h.http
        ws := (congrArg (Serve.Attends · ws) hsame).mpr h.ws }
  | http hm hs => exact { h with http := .step hs }
  | ws hm hs => exact { h with ws := .step hs }
  | @pipeline a p hm hs hupd hsame hproc hne =>
      obtain ⟨disk, _ | p₀⟩ := pipeline
      · cases hs <;> exact hsame.elim
      obtain ⟨disk', _ | p'⟩ := p
      · cases hproc
      exact { h with
        one := fun p hp => by
          cases hp
          exact (Wsjtx.shutdown_of_step hupd hs).trans (h.one p₀ rfl)
        pipeline := fun p hp => by
          cases hp
          exact (h.pipeline p₀ rfl).step hs }

/-! ### Until the signal -/

/-- Each task that is spawned is still there. -/
structure World.Up (P : Setup κ F) (w : World κ ν F) : Prop where
  relay : w.relay.Up
  pipeline : ∀ p, w.pipeline.proc = some p → p.Up
  spawned : P.wsjtx = true → w.main = .waiting → w.pipeline.proc.isSome
  http : w.http.Up
  ws : P.noWs = false → w.ws.Up

omit [DecidableEq κ] [DecidableEq ν] in
theorem World.Up.start {disk : Queue.Disk} : (World.start P disk : World κ ν F).Up P where
  relay := .start
  pipeline _ hp := by cases hp
  spawned hw hm := by simp [World.start, hw] at hm
  http := nofun
  ws h := by
    simp only [World.start, h]
    exact nofun

theorem World.Up.step (h : w.Up P) (hat : w.Attends) (hm' : w'.main.Waits)
    (hs : Step P w a w') : w'.Up P := by
  have hu : w.main.Waits → Unasked w.shutdown := fun hm => by
    rw [hat.waits hm]
    exact ⟨rfl, rfl⟩
  obtain ⟨relay, pipeline, http, ws, main⟩ := w
  cases hs with
  | opened hm hs =>
      cases hs
      exact { h with
        pipeline := fun p hp => by cases hp; exact ⟨nofun, nofun⟩
        spawned := fun _ _ => rfl }
  | openFailed | signal | aborted => exact hm'.elim
  | joined hm => exact (Task.next_not_waits _ hm').elim
  | relay hm hs ha => exact { h with relay := h.relay.step (hu hm') hs }
  | http hm hs => exact { h with http := h.http.step (hu hm') hs }
  | ws hm hs => exact { h with ws := fun hws => (h.ws hws).step (hu hm') hs }
  | @pipeline a p hm hs hupd hsame hproc hne =>
      obtain ⟨disk, _ | p₀⟩ := pipeline
      · cases hs <;> exact hsame.elim
      obtain ⟨disk', _ | p'⟩ := p
      · cases hproc
      exact { h with
        pipeline := fun p hp => by
          cases hp
          exact (h.pipeline p₀ rfl).step (hat.one p₀ rfl ▸ hu hm') hs
        spawned := fun _ _ => rfl }

/-! ### Runs -/

section Runs

variable {C : World κ ν F → Act κ ν F → Prop} {disk : Queue.Disk} {tr : List (Act κ ν F)}

theorem attends_run (h : Run (Step P) C (.start P disk) tr w) : w.Attends :=
  h.invariant (I := fun _ w => w.Attends) .start fun _ ih _ hs => ih.step hs

theorem up_run (h : Run (Step P) C (.start P disk) tr w) : w.main.Waits → w.Up P := by
  refine h.invariant (I := fun _ w => w.main.Waits → w.Up P) (fun _ => .start) ?_
  intro tr w a w' hrun ih _ hs hm'
  refine (ih ?_).step (attends_run hrun) hm' hs
  cases hs with
  | opened hm | signal hm => exact hm ▸ trivial
  | openFailed | aborted => exact hm'.elim
  | joined => exact (Task.next_not_waits _ hm').elim
  | relay | http | ws | pipeline => exact hm'

theorem live_run (h : Run (Step P) C (.start P disk) tr w) : Rig.Live w.relay.listener.rig :=
  (Relay.rig_run (relay_run h)).invariant (I := fun _ r => Rig.Live r) .spawn
    fun _ ih _ hs => ih.step hs

/-- The tasks that have been spawned. -/
def World.Spawned (P : Setup κ F) (w : World κ ν F) : Task → Prop
  | .poller | .listener | .rig => True
  | .ws => P.noWs = false
  | .wsjtxListener | .wsjtxWorker => P.wsjtx = true ∧ w.main = .waiting

/-- Who has a receiver of the shutdown channel. -/
inductive Receiver (ν : Type) where
  | ticker
  | radioWorker
  | conn (c : ν)
  | http
  | ws
  | wsjtxListener
  | wsjtxWorker

/-- It has looked at the channel, goes on, and has seen the version `seen`.  Where it is need not be
its `changed`. -/
inductive World.HasSeen (w : World κ ν F) : Receiver ν → Watch Bool → Nat → Prop where
  | ticker (h : w.relay.poller.ticker = .ticking) :
      w.HasSeen .ticker w.relay.poller.shutdown w.relay.poller.tickerSeen
  | radioWorker (h : w.relay.poller.worker.Watches) :
      w.HasSeen .radioWorker w.relay.poller.shutdown w.relay.poller.workerSeen
  | conn {c : ν} {seen : Nat} (h : (w.relay.ws.conn c).seen? = some seen) :
      w.HasSeen (.conn c) w.relay.ws.shutdown seen
  | http {seen : Nat} (h : w.http = .serving (.waiting seen)) : w.HasSeen .http w.shutdown seen
  | ws {seen : Nat} (h : w.ws = .serving (.waiting seen)) : w.HasSeen .ws w.shutdown seen
  | wsjtxListener {p : Wsjtx.Proc} (hp : w.pipeline.proc = some p) (h : p.listener.Watches) :
      w.HasSeen .wsjtxListener p.shutdown p.listenerSeen
  | wsjtxWorker {p : Wsjtx.Proc} (hp : w.pipeline.proc = some p) (h : p.worker.Watches) :
      w.HasSeen .wsjtxWorker p.shutdown p.workerSeen

omit [DecidableEq κ] [DecidableEq ν] in
/-- All of them watch the channel that `run_daemon` sends on. -/
theorem World.Attends.hasSeen (h : w.Attends) {x : Receiver ν} {shutdown : Watch Bool} {seen : Nat}
    (hx : w.HasSeen x shutdown seen) : shutdown = w.shutdown ∧ Awake shutdown seen := by
  cases hx with
  | ticker ht => exact ⟨rfl, h.relay.poller.ticker ht⟩
  | radioWorker hw => exact ⟨rfl, h.relay.poller.worker hw⟩
  | conn hc => exact ⟨h.relay.one, h.relay.ws _ _ hc⟩
  | http hs => exact ⟨rfl, (congrArg (Serve.Attends _) hs).mp h.http⟩
  | ws hs => exact ⟨rfl, (congrArg (Serve.Attends _) hs).mp h.ws⟩
  | wsjtxListener hp hl => exact ⟨h.one _ hp, (h.pipeline _ hp).listener hl⟩
  | wsjtxWorker hp hw => exact ⟨h.one _ hp, (h.pipeline _ hp).worker hw⟩

/-- It is at its `changed`, and what it selects with that. -/
inductive World.AtChanged (w : World κ ν F) : Receiver ν → Prop where
  -- with the sleep
  | ticker {wake : Duration} (h : w.relay.poller.ticker = .ticking)
      (hl : w.relay.loop = .sleeping wake) : w.AtChanged .ticker
  -- with a snapshot
  | radioIdle (h : w.relay.poller.worker = .idle) : w.AtChanged .radioWorker
  -- with the push
  | radioPushing {s : Poller.Snapshot F} {kind : Poller.PushKind}
      (h : w.relay.poller.worker = .pushing s kind) : w.AtChanged .radioWorker
  -- with a frame, and with a message of the client
  | conn {c : ν} {seen next : Nat} (h : w.relay.ws.conn c = .selecting seen next) :
      w.AtChanged (.conn c)
  | http {seen : Nat} (h : w.http = .serving (.waiting seen)) : w.AtChanged .http
  | ws {seen : Nat} (h : w.ws = .serving (.waiting seen)) : w.AtChanged .ws
  -- with the send of a replayed item
  | replaying {p : Wsjtx.Proc} {x : UInt64 × Text} {rest : Queue.Replay}
      (hp : w.pipeline.proc = some p) (h : p.listener = .replaying (x :: rest)) :
      w.AtChanged .wsjtxListener
  -- with a datagram
  | receiving {p : Wsjtx.Proc} (hp : w.pipeline.proc = some p) (h : p.listener = .receiving) :
      w.AtChanged .wsjtxListener
  -- with an item
  | wsjtxIdle {p : Wsjtx.Proc} (hp : w.pipeline.proc = some p) (h : p.worker = .idle) :
      w.AtChanged .wsjtxWorker
  -- with the push
  | wsjtxPushing {p : Wsjtx.Proc} {item : Wsjtx.QueueItem} (hp : w.pipeline.proc = some p)
      (h : p.worker = .pushing item) : w.AtChanged .wsjtxWorker

/-- It has stopped: a task has ended, a connection sends its close, a server takes no more. -/
def World.Stopped (w : World κ ν F) : Receiver ν → Prop
  | .ticker => w.relay.poller.ticker = .stopped
  | .radioWorker => w.relay.poller.worker = .stopped
  | .conn c => w.relay.ws.conn c = .closing
  | .http => w.http = .serving .resolved
  | .ws => w.ws = .serving .resolved
  | .wsjtxListener => ∃ p, w.pipeline.proc = some p ∧ p.listener = .stopped
  | .wsjtxWorker => ∃ p, w.pipeline.proc = some p ∧ p.worker = .stopped

/-- There are connections only where there is a server for them. -/
def World.Served (P : Setup κ F) (w : World κ ν F) : Prop :=
  ∀ c, w.relay.ws.conn c ≠ .accepted → P.noWs = false ∧ w.ws ≠ .serving .spawned

/-- A server that has taken a step has begun. -/
theorem Serve.Step.begun {shutdown : Watch Bool} {Drained : Prop} {x x' : Serve}
    (hs : Serve.Step shutdown Drained x x') : x' ≠ .serving .spawned := by
  cases hs with
  | notified h =>
      cases h with
      | returns | waits => nofun
      | notified => split <;> nofun
  | returned => nofun

theorem World.Served.step (h : w.Served P) (hs : Step P w a w') : w'.Served P := by
  cases hs with
  | relay hm hs ha =>
      intro c hc
      cases hs with
      -- `Allows` says so of the connection that steps
      | conn => exact ha
      | _ => exact h c hc
  | ws hm hs => exact fun c hc => ⟨(h c hc).1, hs.begun⟩
  | _ => exact h

theorem served_run (h : Run (Step P) C (.start P disk) tr w) : w.Served P :=
  h.invariant (I := fun _ w => w.Served P) (fun _ hc => absurd rfl hc) fun _ ih _ hs => ih.step hs

omit [DecidableEq κ] [DecidableEq ν] in
/-- One that is at its `changed` has looked at the channel. -/
theorem World.AtChanged.hasSeen {x : Receiver ν} (h : w.AtChanged x) :
    ∃ shutdown seen, w.HasSeen x shutdown seen := by
  cases h with
  | ticker h => exact ⟨_, _, .ticker h⟩
  | radioIdle h | radioPushing h => exact ⟨_, _, .radioWorker (h ▸ trivial)⟩
  | conn h => exact ⟨_, _, .conn (by rw [h]; rfl)⟩
  | http h => exact ⟨_, _, .http h⟩
  | ws h => exact ⟨_, _, .ws h⟩
  | replaying hp h | receiving hp h => exact ⟨_, _, .wsjtxListener hp (h ▸ trivial)⟩
  | wsjtxIdle hp h | wsjtxPushing hp h => exact ⟨_, _, .wsjtxWorker hp (h ▸ trivial)⟩

/-- A server whose `changed` says to stop. -/
theorem Serve.resolves {shutdown : Watch Bool} {Drained : Prop} {seen seen' : Nat}
    (hc : shutdown.changed seen = some (true, seen'))
    (hobs : shutdownObserved true shutdown = true) :
    Serve.Step shutdown Drained (.serving (.waiting seen)) (.serving .resolved) := by
  have hs := Waiter.Step.notified hc
  rw [if_pos hobs] at hs
  exact .notified hs

/-- A task of the pipeline that stops. -/
theorem stops_pipeline {p p' : Wsjtx.Proc} {a : Wsjtx.Act} (hm : w.main.Runs)
    (hp : w.pipeline.proc = some p) (ha : a = .listener ∨ a = .worker)
    (hs : ∀ disk, Wsjtx.Step P.serde P.wavelog ⟨disk, some p⟩ a ⟨disk, some p'⟩) (hne : p' ≠ p) :
    ∃ b w', Step P w b w' ∧ w'.pipeline.proc = some p' := by
  obtain ⟨relay, ⟨disk, _⟩, http, ws, main⟩ := w
  cases hp
  have hact : a.isUpdate = false ∧ Wsjtx.SameProcess a := by
    rcases ha with rfl | rfl <;> exact ⟨rfl, trivial⟩
  refine ⟨.pipeline a, _, .pipeline hm (hs disk) hact.1 hact.2 rfl fun h => ?_, rfl⟩
  cases h
  exact hne rfl

theorem stops_listener {p p' : Wsjtx.Proc} (hm : w.main.Runs) (hp : w.pipeline.proc = some p)
    (hs : ∀ disk, Wsjtx.Step P.serde P.wavelog ⟨disk, some p⟩ .listener ⟨disk, some p'⟩)
    (hon : p.listener ≠ .stopped) (hoff : p'.listener = .stopped) :
    ∃ a w', Step P w a w' ∧ w'.Stopped .wsjtxListener := by
  obtain ⟨b, w', hstep, hp'⟩ := stops_pipeline hm hp (.inl rfl) hs fun heq => hon (heq ▸ hoff)
  exact ⟨b, w', hstep, p', hp', hoff⟩

theorem stops_worker {p p' : Wsjtx.Proc} (hm : w.main.Runs) (hp : w.pipeline.proc = some p)
    (hs : ∀ disk, Wsjtx.Step P.serde P.wavelog ⟨disk, some p⟩ .worker ⟨disk, some p'⟩)
    (hon : p.worker ≠ .stopped) (hoff : p'.worker = .stopped) :
    ∃ a w', Step P w a w' ∧ w'.Stopped .wsjtxWorker := by
  obtain ⟨b, w', hstep, hp'⟩ := stops_pipeline hm hp (.inr rfl) hs fun heq => hon (heq ▸ hoff)
  exact ⟨b, w', hstep, p', hp', hoff⟩

/-- **After the signal, one that is at its `changed` can stop at once.** -/
theorem World.AtChanged.stops {x : Receiver ν} (h : w.AtChanged x) (hat : w.Attends)
    (hserved : w.Served P) (hm : w.main.Runs) (hv : w.shutdown.value = true) :
    ∃ a w', Step P w a w' ∧ w'.Stopped x := by
  -- what its `changed` returns
  have htold : ∀ {shutdown seen}, w.HasSeen x shutdown seen →
      shutdown.changed seen = some (true, shutdown.version) ∧
        shutdownObserved true shutdown = true := fun hx => by
    obtain ⟨rfl, hawake⟩ := hat.hasSeen hx
    exact hawake.stops hv
  cases h with
  | ticker ht hl =>
      obtain ⟨hc, hobs⟩ := htold (.ticker ht)
      exact ⟨_, _, .relay hm (.stopped ht hl hc hobs) trivial, rfl⟩
  | radioIdle hw =>
      obtain ⟨hc, hobs⟩ := htold (.radioWorker (hw ▸ trivial))
      exact ⟨_, _, .relay hm (.worker (.workerNotified hw hc) trivial) trivial, if_pos hobs⟩
  | radioPushing hw =>
      obtain ⟨hc, hobs⟩ := htold (.radioWorker (hw ▸ trivial))
      have hnone : Poller.Interrupted [] := ⟨Nat.zero_le _, nofun⟩
      exact ⟨_, _, .relay hm (.worker (.cancelled hw hnone hc) trivial) trivial, if_pos hobs⟩
  | @conn c seen next hs =>
      obtain ⟨hc, hobs⟩ := htold (.conn (by rw [hs]; rfl))
      have hn : Ws.ConnStep w.relay.ws.handle.tx w.relay.ws.shutdown (.selecting seen next)
          .notified (if _ then .closing else _) := .notified hc
      rw [if_pos hobs] at hn
      have hstep : Ws.ConnStep w.relay.ws.handle.tx w.relay.ws.shutdown (w.relay.ws.conn c)
          .notified .closing := hs ▸ hn
      have hallows : w.Allows P (.conn c .notified) := hserved c fun h => by cases hs.symm.trans h
      refine ⟨_, _, .relay hm (.conn (.conn hstep)) hallows, ?_⟩
      exact if_pos rfl
  | http hs =>
      obtain ⟨hc, hobs⟩ := htold (.http hs)
      exact ⟨_, _, .http hm (hs ▸ Serve.resolves hc hobs), rfl⟩
  | ws hs =>
      obtain ⟨hc, hobs⟩ := htold (.ws hs)
      exact ⟨_, _, .ws hm (hs ▸ Serve.resolves hc hobs), rfl⟩
  | replaying hp hl =>
      obtain ⟨hc, hobs⟩ := htold (.wsjtxListener hp (hl ▸ trivial))
      exact stops_listener hm hp (fun disk => .replayNotified hl hc) (by simp [hl]) (if_pos hobs)
  | receiving hp hl =>
      obtain ⟨hc, hobs⟩ := htold (.wsjtxListener hp (hl ▸ trivial))
      exact stops_listener hm hp (fun disk => .listenerNotified hl hc) (by simp [hl]) (if_pos hobs)
  | wsjtxIdle hp hw =>
      obtain ⟨hc, hobs⟩ := htold (.wsjtxWorker hp (hw ▸ trivial))
      refine stops_worker hm hp (fun disk => .workerNotified hw hc) (by simp [hw]) ?_
      rw [if_pos hobs]
      rfl
  | wsjtxPushing hp hw =>
      obtain ⟨hc, hobs⟩ := htold (.wsjtxWorker hp (hw ▸ trivial))
      refine stops_worker hm hp (fun disk => .pushNotified hw hc) (by simp [hw]) ?_
      rw [if_pos hobs]
      rfl

/-- What the signal does, and what nothing does without it. -/
structure SignalStops (P : Setup κ F) (w : World κ ν F) : Prop where
  up : w.main.Waits → ∀ task, w.Spawned P task → ¬ w.Ended task
  /-- Until the signal no `changed` returns. -/
  unwoken : w.main.Waits → ∀ x shutdown seen, w.HasSeen x shutdown seen →
    shutdown.changed seen = none
  /-- From the signal on, the `changed` of each task that goes on, which it is at or will come to,
  returns at once, and says to stop. -/
  told : w.main.Asked → ∀ x shutdown seen, w.HasSeen x shutdown seen →
    shutdown.changed seen = some (true, shutdown.version) ∧
      shutdownObserved true shutdown = true
  /-- One that is at its `changed` then can stop in a step. -/
  stops : w.main.Runs → w.main.Asked → ∀ x, w.AtChanged x →
    ∃ a w', Step P w a w' ∧ w'.Stopped x

/-- **No task ends before the signal, and none misses it.** -/
theorem signal_stops (h : Run (Step P) Always (.start P disk) tr w) : SignalStops P w := by
  have hat := attends_run h
  refine ⟨fun hm task hsp hend => ?_, fun hm x shutdown seen hx => ?_,
    fun hm x shutdown seen hx => ?_,
    fun hruns hm x hx => hx.stops hat (served_run h) hruns (hat.asked hm)⟩
  · have hup := up_run h hm
    cases task with
    | poller => exact hup.relay.poller.ticker hend.1
    | listener => exact hup.http.ne_returned hend
    | ws => exact (hup.ws hsp).ne_returned hend
    | wsjtxListener =>
        obtain ⟨p, hp⟩ := Option.isSome_iff_exists.mp (hup.spawned hsp.1 hsp.2)
        exact (hup.pipeline p hp).listener (hend p hp)
    | wsjtxWorker =>
        obtain ⟨p, hp⟩ := Option.isSome_iff_exists.mp (hup.spawned hsp.1 hsp.2)
        exact (hup.pipeline p hp).worker (hend p hp)
    | rig =>
        have hdropped := ((live_run h).stopped hend).1
        exact absurd (hup.relay.handles.symm.trans hdropped) nofun
  · obtain ⟨rfl, hawake⟩ := hat.hasSeen hx
    have hfresh := hat.waits hm
    have hle := hawake.seen_le
    rw [hfresh] at hle ⊢
    obtain rfl : seen = 0 := Nat.le_zero.mp hle
    rfl
  · obtain ⟨rfl, hawake⟩ := hat.hasSeen hx
    exact hawake.stops (hat.asked hm)

end Runs

/-! ### A daemon at rest -/

/-- All the parts, with the rig that answers a poll. -/
def wholeSetup : Setup Unit Nat where
  toSetup := Relay.secondSetup
  serde := Queue.json
  wavelog := Wsjtx.createdJson
  radio := "IC-7300".toList
  powerMaxWatts := 100
  noWs := false
  wsjtx := true

/-- Every task waits. -/
def atRest : World Unit Unit Nat where
  relay :=
    { (Relay.World.start "IC-7300".toList 100 : Relay.World Unit Unit Nat) with
      listener.rig := { (Rig.World.spawn : Rig.World Nat) with conns := 1, phase := .serving 0 }
      poller := { (Poller.World.start : Poller.World Nat) with ticker := .ticking, worker := .idle }
      loop := .sleeping (0 + nanosPerSec) }
  pipeline := ⟨⟨none, []⟩, some (.waiting ⟨[], 1⟩)⟩
  http := .serving (.waiting 0)
  ws := .serving (.waiting 0)
  main := .waiting

def restActs : List (Act Unit Unit Nat) :=
  [.opened {} [], .relay .started, .relay (.worker .worker),
    .relay (.listener (.rig (.connected 0))), .http, .ws, .pipeline .listener, .pipeline .listener,
    .pipeline .worker]

theorem atRest_run :
    Run (Step wholeSetup) Always (.start wholeSetup ⟨none, []⟩) restActs atRest := by
  have hopen : Queue.QsoQueue.open Queue.json ⟨none, []⟩ {} = (.ok (⟨[], 1⟩, []), ⟨none, []⟩) := rfl
  refine .cons trivial (.opened rfl (.opened hopen)) ?_
  refine .cons trivial (.relay trivial (.started rfl rfl) trivial) ?_
  refine .cons trivial (.relay trivial (.worker (.workerStarts rfl rfl) trivial) trivial) ?_
  refine .cons trivial (.relay trivial (.of_rig (.connected rfl) rfl trivial) trivial) ?_
  refine .cons trivial (.http trivial (.notified (.waits rfl))) ?_
  refine .cons trivial (.ws trivial (.notified (.waits rfl))) ?_
  refine .cons trivial (.pipeline trivial (.listenerStarts rfl rfl) rfl trivial rfl nofun) ?_
  refine .cons trivial (.pipeline trivial (.replayDone rfl) rfl trivial rfl nofun) ?_
  refine .cons trivial (.pipeline trivial (.workerStarts rfl rfl) rfl trivial rfl nofun) ?_
  exact .nil

theorem atRest_signal_stops :
    SignalStops wholeSetup { atRest.sendTrue with main := .joining .poller } :=
  signal_stops (atRest_run.extend (.signal rfl) trivial)

end Daemon

end WavelogRelay
