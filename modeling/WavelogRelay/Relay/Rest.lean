import WavelogRelay.Relay.Effort

/-!
# Relay — a relay that is let alone

Nothing is sent on the shutdown channel.  What a tick, a click-to-tune request or the end of a
reconnect sleep sets off then comes to an end, whatever rigctld, Wavelog and the browsers do.

* `Left.step`: each step leaves less to do, but for those that bring more.
* `exists_turn`: until the relay is idle, some task has a step that needs no answer.
* `settles`: so it comes to rest, with every reader up to date.
-/

namespace WavelogRelay
open Library

/-! ### The worker -/

namespace Poller

variable {F : Type}

/-- The loop has a worker while it runs. -/
def World.Staffed (w : World F) : Prop := w.ticker = .ticking → w.worker ≠ .unspawned

/-- A step of the worker that needs no answer from Wavelog. -/
def Act.Unaided : Act F → Prop
  | .worker | .skipped _ | .started _ _ => True
  | .pushed _ attempts _ => ∀ x ∈ attempts, x.met = .failed
  | .shutdown _ | .senderDropped | .ticker | .published _ | .cancelled _ _ => False

def Ticker.startLeft : Ticker → Nat
  | .spawned => 3
  | .ticking | .stopped => 0

def Worker.startLeft : Worker F → Nat
  | .spawned => 1
  | .unspawned | .idle | .pushing _ _ | .stopped => 0

/-- The first steps of the loop and of the worker. -/
def World.startLeft (w : World F) : Nat := w.ticker.startLeft + w.worker.startLeft

theorem Worker.startLeft_of_ne {x : Worker F} (h : x ≠ .spawned) : x.startLeft = 0 := by
  cases x with
  | spawned => exact absurd rfl h
  | _ => rfl

variable {R : Rig.F32 F} {w w' : World F} {a : Act F}

theorem World.Staffed.step (h : w.Staffed) (hs : Step R w a w') : w'.Staffed := by
  intro ht
  cases hs with
  | shutdown | senderDropped | published | pollFailed | emptied | skipped => exact h ht
  | runReturns => cases ht
  | runStarts | workerReturns | workerStarts | statesClosed | started | pushed =>
      exact fun hw => by cases hw
  | tickerNotified htick hc =>
      split
      · exact h htick
      · exact h htick
  | cancelled | workerNotified =>
      dsimp only
      split <;> exact fun hw => by cases hw

/-- **The worker goes on**, unless it waits and has seen all that was published. -/
theorem exists_worker_turn (R : Rig.F32 F) (hv : w.shutdown.value = false) (hup : w.Up)
    (hw : w.worker ≠ .unspawned)
    (hrest : w.worker ≠ .idle ∨ w.statesSeen ≠ w.states.version) :
    ∃ a w', Step R w a w' ∧ Relay.ofWorker a ∧ a.Unaided := by
  cases hworker : w.worker with
  | unspawned => exact absurd hworker hw
  | stopped => exact absurd hworker hup.worker
  | spawned => exact ⟨_, _, .workerStarts hworker hv, trivial, trivial⟩
  | pushing s kind =>
      have hfailed : ∀ x ∈ List.replicate 3 (⟨.failed, false⟩ : Attempt), x.met = .failed :=
        fun x hx => by rw [List.eq_of_mem_replicate hx]
      have hsound : ∀ x ∈ List.replicate 3 (⟨.failed, false⟩ : Attempt), x.Sound :=
        fun x hx hok => by
          rw [hfailed x hx] at hok
          cases hok
      exact ⟨_, _, .pushed hworker hsound rfl, trivial, hfailed⟩
  | idle =>
      have hne : w.states.version ≠ w.statesSeen :=
        (hrest.resolve_left fun h => h hworker).symm
      have hc : w.states.changed w.statesSeen = some (true, w.states.version) := if_pos hne
      cases hval : w.states.value with
      | none => exact ⟨_, _, .emptied hworker hc hval, trivial, trivial⟩
      | some state =>
          cases hskip : w.deduper.shouldSkip R state w.clock with
          | true =>
              exact ⟨_, _, .skipped hworker hc hval (Nat.le_refl _) hskip, trivial, trivial⟩
          | false =>
              exact ⟨_, _, .started hworker hc hval (Nat.le_refl _) hskip, trivial, trivial⟩

/-- What a worker at rest has made of the last snapshot. -/
theorem latest_settled {tr : List (Act F)} (hseen : Seen tr w) (hset : Settles R tr w)
    (hidle : w.worker = .idle) (hall : w.statesSeen = w.states.version) {latest : Rig.RigState F}
    (hl : (published tr).getLast? = some latest) :
    (∃ s, (evaluated tr).getLast? = some s ∧ s.state = latest ∧ PushFailed tr s) ∨
      ∃ p, lastSuccess tr = some p ∧ SameBin R p.state latest := by
  obtain ⟨init, hpub⟩ := List.getLast?_eq_some_iff.mp hl
  have hpos : 0 < w.statesSeen := by simp [hall, hseen.version, hpub]
  obtain ⟨s, hs, hver⟩ := hseen.last hpos
  have hlatest : s.state = latest := by
    have hget := (hseen.lookup s (List.mem_of_getLast? hs)).2
    rw [hver, hall, hseen.version, ← List.getLast?_eq_getElem?, hl] at hget
    exact (Option.some.inj hget).symm
  have hnot : ∀ s kind, w.worker ≠ .pushing s kind := fun s kind h => by cases hidle.symm.trans h
  rcases hset.settled hnot s hs with hf | ⟨p, hp, hbin⟩
  · exact .inl ⟨s, hs, hlatest, hf⟩
  · exact .inr ⟨p, hp, hlatest ▸ hbin⟩

end Poller

/-! ### The relay -/

namespace Relay
open Rig (Job)

variable {κ ν F : Type}

/-- Nothing is sent on the shutdown channel. -/
def Quietly (_ : World κ ν F) (a : Act κ ν F) : Prop := a.Quiet

/-- What a relay keeps that is let alone. -/
structure World.Calm (w : World κ ν F) : Prop where
  attends : w.Attends
  up : w.Up
  poller : Poller.Calm w.poller
  staffed : w.poller.Staffed
  shutdown : w.poller.shutdown = .new false
  live : Rig.Live w.listener.rig
  due : w.Due
  holds : ∃ hist, w.ws.handle.tx.Holds hist
  arrived : ∃ l : List ν, ∀ c, w.ws.conn c ≠ .accepted → c ∈ l

theorem World.Calm.start {radio : Text} {powerMaxWatts : F} :
    (World.start radio powerMaxWatts : World κ ν F).Calm where
  attends := .start
  up := .start
  poller := .start
  staffed h := by cases h
  shutdown := rfl
  live := .spawn
  due := .start
  holds := ⟨[], Broadcast.holds_new _⟩
  arrived := ⟨[], fun _ h => absurd rfl h⟩

theorem World.Calm.unasked {w : World κ ν F} (h : w.Calm) : Unasked w.poller.shutdown := by
  rw [h.shutdown]
  exact ⟨rfl, rfl⟩

variable [DecidableEq κ] [DecidableEq ν] {P : Setup κ F} {w w' : World κ ν F} {a : Act κ ν F}

theorem Act.Quiet.toPoller {b : Poller.Act F} (ha : a.Quiet) (hs : Step P w a w')
    (hb : a.toPoller = some b) : Poller.Quiet w.poller b := by
  cases hs with
  | shutdown | senderDropped => exact ha.elim
  | worker hs hw =>
      cases hb
      cases b with
      | shutdown | senderDropped => exact hw.elim
      | _ => trivial
  | elapsed | listener | asked | conn => cases hb
  | returned | started | published | failed | stopped | notified =>
      cases hb
      trivial

omit [DecidableEq κ] [DecidableEq ν] in
theorem holds_broadcast {S : Ws.FrameFormat F} {handle : Ws.WsHandle F} {hist : List Text}
    (h : handle.tx.Holds hist) (state : Rig.RigState F) (now : UInt64) :
    ∃ hist, (handle.broadcast S state now).tx.Holds hist := by
  unfold Ws.WsHandle.broadcast
  cases handle.frame S state now with
  | none => exact ⟨hist, h⟩
  | some json => exact ⟨_, h.send json⟩

theorem World.Calm.step (h : w.Calm) (ha : a.Quiet) (hs : Step P w a w') : w'.Calm where
  attends := h.attends.step hs
  up := h.up.step h.unasked hs
  poller := by
    cases hb : a.toPoller with
    | none => exact hs.poller_eq hb ▸ h.poller
    | some b => exact h.poller.step (ha.toPoller hs hb) (hs.toPoller hb)
  staffed := by
    cases hb : a.toPoller with
    | none => exact hs.poller_eq hb ▸ h.staffed
    | some b => exact h.staffed.step (hs.toPoller hb)
  shutdown := (shutdown_of_step hs ha).trans h.shutdown
  live := by
    cases hb : a.toListener with
    | none => exact hs.listener_eq hb ▸ h.live
    | some b =>
        have hl := hs.toListener hb
        cases hr : b.rigAct with
        | some r => exact h.live.step (rigStep hl hr)
        | none =>
            generalize w'.listener = l at hl ⊢
            cases hl with
            | refused | resumed | dropped => exact h.live
            | dispatched | rig => cases hr
  due := h.due.step hs
  holds := by
    obtain ⟨hist, hh⟩ := h.holds
    cases hs with
    | published now => exact holds_broadcast hh _ now
    | conn hs =>
        cases hs
        exact ⟨hist, hh⟩
    | _ => exact ⟨hist, hh⟩
  arrived := by
    obtain ⟨l, hl⟩ := h.arrived
    cases hs with
    | @conn c b s hs =>
        refine ⟨c :: l, fun d hd => ?_⟩
        by_cases hdc : d = c
        · exact hdc ▸ List.mem_cons_self
        · refine List.mem_cons_of_mem c (hl d ?_)
          have hother := (hs.other (c := d) fun b' hb => hdc (by cases hb; rfl)).1
          exact hother ▸ hd
    | _ => exact ⟨l, hl⟩

theorem calm_run {radio : Text} {powerMaxWatts : F} {tr : List (Act κ ν F)}
    (h : Run (Step P) Quietly (.start radio powerMaxWatts) tr w) : w.Calm :=
  h.invariant (I := fun _ w => w.Calm) .start fun _ ih ha hs => ih.step ha hs

/-! ### What is left to do -/

/-- The steps left to the rig and its handlers, to the loop and to the worker, with their first. -/
def Left (n : Nat) (w : World κ ν F) : Prop := ∃ m, Bound m w ∧ m + w.poller.startLeft ≤ n

/-- **Each step leaves less to do**, unless it brings more. -/
theorem Left.step {n : Nat} (h : Left n w) (hc : w.Calm) (ha : a.Quiet) (hs : Step P w a w') :
    ∃ m, Left m w' ∧ m + a.own.toNat ≤ n + 16 * a.work.toNat := by
  obtain ⟨m, hb, hn⟩ := h
  have hgo : a.Goes → w'.poller.startLeft = w.poller.startLeft →
      ∃ m, Left m w' ∧ m + a.own.toNat ≤ n + 16 * a.work.toNat := fun hgoes heq => by
    obtain ⟨k, hk, hle⟩ := hb.go hgoes hs
    exact ⟨k + w'.poller.startLeft, ⟨k, hk, Nat.le_refl _⟩, by omega⟩
  cases hs with
  | elapsed | listener | asked | published | failed | conn => exact hgo trivial rfl
  | shutdown | senderDropped => exact ha.elim
  | returned ht hv => cases hc.unasked.value.symm.trans hv
  | stopped ht hl hch | notified ht hl hch =>
      exact absurd hch (hc.poller.not_changed hc.poller.tickerSeen)
  | started ht hv =>
      have hw := hc.poller.unspawned ht
      obtain ⟨k, hk, hle⟩ := hb
      have hloop : w.loopLeft = 1 := by rw [World.loopLeft, ht]
      have hworker : w.poller.worker.left = 0 := by rw [hw]; rfl
      have hstart : w.poller.startLeft = 3 := by rw [Poller.World.startLeft, ht, hw]; rfl
      have hnew : 1 + (if w.poller.states.version = w.poller.statesSeen then 0 else 2) =
          w.poller.workerLeft + 1 := by
        rw [Poller.World.workerLeft, hworker, Nat.zero_add, Nat.add_comm]
      refine ⟨k + 1 + (w.poller.workerLeft + 1) + 1, ⟨_, ⟨k, hk, ?_⟩, Nat.le_refl _⟩, ?_⟩
      · exact Nat.add_le_add_left (Nat.le_of_eq hnew) _
      · simp only [Act.own, Act.work, Bool.toNat_true]
        omega
  | @worker b q hq hw =>
      have hticker := ticker_of_worker hq hw
      by_cases hsp : w.poller.worker = .spawned
      · obtain ⟨hne, hle⟩ := Poller.workerLeft_of_spawned hsp hq hw
        have hstart : w.poller.startLeft = q.startLeft + 1 := by
          rw [Poller.World.startLeft, Poller.World.startLeft, hticker, hsp,
            Poller.Worker.startLeft_of_ne hne]
          rfl
        obtain ⟨k, hk, hle⟩ := hb.worker (k := 0) hq hw hle
        exact ⟨k + q.startLeft, ⟨k, hk, Nat.le_refl _⟩,
          by simp only [Act.own, Act.work, Bool.toNat_true]; omega⟩
      · have hlt := Poller.workerLeft_lt (fun h => absurd h hsp)
          (fun hch => absurd hch (hc.poller.not_changed hc.poller.workerSeen)) hq hw
        have hstart : w.poller.startLeft = q.startLeft := by
          rw [Poller.World.startLeft, Poller.World.startLeft, hticker,
            Poller.Worker.startLeft_of_ne hsp,
            Poller.Worker.startLeft_of_ne (Poller.worker_ne_spawned hsp hq hw)]
        obtain ⟨k, hk, hle⟩ := hb.worker (k := 1) hq hw hlt
        exact ⟨k + q.startLeft, ⟨k, hk, Nat.le_refl _⟩,
          by simp only [Act.own, Act.work, Bool.toNat_true]; omega⟩

/-! ### Rest -/

/-- There is nothing to do but to wait: for the next tick, for a snapshot, and for a request. -/
structure World.Idle (w : World κ ν F) : Prop where
  ticking : w.poller.ticker = .ticking
  sleeping : ∀ job, w.loop ≠ .polling job
  worker : w.poller.worker = .idle
  seen : w.poller.statesSeen = w.poller.states.version
  pending : w.listener.rig.pending = []
  /-- The actor is connected, or sleeps before it connects. -/
  actor : w.listener.rig.phase ≠ .connecting
  handlers : ∀ c job, w.listener.stage c ≠ .setting job

/-- Each connection, too, waits. -/
structure World.Resting (w : World κ ν F) : Prop where
  idle : w.Idle
  conns : ∀ c, (w.ws.conn c).Resting w.ws.handle.tx

/-- A step that needs no answer from rigctld or Wavelog, and of a browser only that it reads. -/
def Act.Unaided : Act κ ν F → Prop
  | .listener (.rig a) => a.Unaided
  | .listener (.resumed _ _) | .started | .published _ _ _ | .failed _ _ => True
  | .worker a => a.Unaided
  | .conn _ b => b.Unaided
  | _ => False

/-- Such a step of a connection. -/
def Act.OfConn : Act κ ν F → Prop
  | .conn _ b => b.Unaided
  | _ => False

/-- A step of the relay, but for its connections. -/
def Act.Turn (a : Act κ ν F) : Prop := a.Unaided ∧ a.own = true ∧ a.work = false

omit [DecidableEq κ] [DecidableEq ν] in
theorem Act.Unaided.quiet (h : a.Unaided) : a.Quiet := by
  cases a with
  | shutdown | senderDropped => exact h.elim
  | _ => trivial

omit [DecidableEq κ] [DecidableEq ν] in
theorem Act.OfConn.unaided (h : a.OfConn) : a.Unaided := by
  cases a with
  | conn => exact h
  | _ => exact h.elim

theorem exists_rig_turn {r : Rig.Act F} {x : Rig.World F}
    (hs : Rig.Step P.float w.listener.rig r x) (hr : r.Unaided) :
    ∃ w', Step P w (.listener (.rig r)) w' ∧ (Act.listener (.rig r) : Act κ ν F).Turn := by
  have hturn : (Act.listener (.rig r) : Act κ ν F).Turn := ⟨hr, hr.own, congrArg not hr.own⟩
  cases r with
  | requested | abandoned | handlesDropped => exact hr.elim
  | _ => exact ⟨_, .of_rig hs rfl trivial, hturn⟩

omit [DecidableEq κ] in
/-- A reply that is due and not pending is there. -/
theorem replied_of_due {l : Listener.System κ F} {job : Job} (h : l.Due job)
    (hp : l.rig.pending = []) : ∃ res, (job, res) ∈ l.replies :=
  h.resolve_left fun hmem => by simp [hp] at hmem

/-- **Until the relay is idle it has a turn.** -/
theorem exists_turn (hc : w.Calm) (hreply : ∀ {job reply}, w.loop = .polling job →
      (job, .ok reply) ∈ w.listener.replies → ∃ state, reply = .state state) (hidle : ¬ w.Idle) :
    ∃ a w', Step P w a w' ∧ a.Turn := by
  by_cases hp : w.listener.rig.pending = []
  swap
  · have hst : w.listener.rig.phase ≠ .stopped := fun h => by
      cases hc.up.handles.symm.trans (hc.live.stopped h).1
    obtain ⟨r, x, hs, hr⟩ := Rig.exists_unaided P.float (.inl hp) hst
    obtain ⟨w', hs', hturn⟩ := exists_rig_turn hs hr
    exact ⟨_, w', hs', hturn⟩
  by_cases hph : w.listener.rig.phase = .connecting
  · obtain ⟨w', hs', hturn⟩ := exists_rig_turn (P := P) (w := w) (.connectFailed hph) trivial
    exact ⟨_, w', hs', hturn⟩
  by_cases hset : ∃ c job, w.listener.stage c = .setting job
  · obtain ⟨c, job, hset⟩ := hset
    obtain ⟨res, hres⟩ := replied_of_due (hc.due.handlers c job hset) hp
    exact ⟨_, _, .listener (.resumed hset hres) trivial, trivial, rfl, rfl⟩
  cases ht : w.poller.ticker with
  | spawned => exact ⟨_, _, .started ht hc.unasked.value, trivial, rfl, rfl⟩
  | stopped => exact absurd ht hc.up.poller.ticker
  | ticking =>
      cases hl : w.loop with
      | polling job =>
          obtain ⟨res, hres⟩ := replied_of_due (hc.due.loop job hl) hp
          cases res with
          | error e => exact ⟨_, _, .failed ht hl hres, trivial, rfl, rfl⟩
          | ok reply =>
              obtain ⟨state, rfl⟩ := hreply hl hres
              exact ⟨_, _, .published 0 ht hl hres, trivial, rfl, rfl⟩
      | sleeping wake =>
          have hrest : w.poller.worker ≠ .idle ∨ w.poller.statesSeen ≠ w.poller.states.version := by
            by_contra hno
            obtain ⟨hworker, hseen⟩ := not_or.mp hno
            refine hidle ⟨ht, fun job h => ?_, not_not.mp hworker, not_not.mp hseen, hp, hph,
              fun c job h => hset ⟨c, job, h⟩⟩
            cases hl.symm.trans h
          obtain ⟨b, q, hs, hb, hun⟩ := Poller.exists_worker_turn P.float hc.unasked.value
            hc.up.poller (hc.staffed ht) hrest
          exact ⟨_, _, .worker hs hb, hun, rfl, rfl⟩

/-- A state of a relay that is let alone. -/
def Reached (P : Setup κ F) (radio : Text) (powerMaxWatts : F) (w : World κ ν F) : Prop :=
  ∃ tr, Run (Step P) Quietly (.start radio powerMaxWatts) tr w

section Reached

variable {radio : Text} {powerMaxWatts : F} {tr : List (Act κ ν F)}

theorem Reached.step (h : Reached P radio powerMaxWatts w) (ha : a.Quiet) (hs : Step P w a w') :
    Reached P radio powerMaxWatts w' := by
  obtain ⟨tr, h⟩ := h
  exact ⟨_, h.extend hs ha⟩

theorem Reached.reply (h : Reached P radio powerMaxWatts w) {job : Job} {reply : Rig.Reply F}
    (hl : w.loop = .polling job) (hr : (job, .ok reply) ∈ w.listener.replies) :
    ∃ state, reply = .state state := by
  obtain ⟨tr, h⟩ := h
  exact reply_of_poll h hl hr

theorem Reached.calm (h : Reached P radio powerMaxWatts w) : w.Calm := calm_run h.choose_spec

omit [DecidableEq κ] [DecidableEq ν] in
theorem left_start : Left 7 (.start radio powerMaxWatts : World κ ν F) := by
  refine ⟨4, ⟨3, ⟨3, ⟨2, ⟨2, .connecting, Nat.le_refl _⟩, Nat.le_refl _⟩, [], ?_, Nat.le_refl _⟩,
    Nat.le_refl _⟩, Nat.le_refl _⟩
  exact fun _ _ h => by cases h

theorem left_run (h : Run (Step P) Quietly (.start radio powerMaxWatts) tr w) :
    ∃ m, Left m w ∧ m + tr.countP Act.own ≤ 7 + 16 * tr.countP Act.work := by
  obtain ⟨m, ⟨hm, -⟩, hle⟩ := h.spent (fun n w => Left n w ∧ w.Calm) Act.own Act.work 16
    (fun ha hs hb => by
      obtain ⟨m, hm, hle⟩ := hb.1.step hb.2 ha hs
      exact ⟨m, ⟨hm, hb.2.step ha hs⟩, hle⟩) ⟨left_start, .start⟩
  exact ⟨m, hm, hle⟩

/-- **The relay comes to be idle.** -/
theorem exists_idle (h : Reached P radio powerMaxWatts w) :
    ∃ tr' w', Run (Step P) (fun _ a => a.Unaided) w tr' w' ∧ w'.Idle := by
  obtain ⟨tr, hrun⟩ := id h
  obtain ⟨n, hn, -⟩ := left_run hrun
  obtain ⟨tr', w', hrun', hidle⟩ := Run.exists_done (C := fun _ (a : Act κ ν F) => a.Turn) Left
    (Reached P radio powerMaxWatts) World.Idle
    (fun hw ha hs => hw.step ha.1.quiet hs) (fun {w n} hw hn hidle => by
      obtain ⟨a, w', hs, ha⟩ := exists_turn hw.calm hw.reply hidle
      obtain ⟨m, hm, hle⟩ := hn.step hw.calm ha.1.quiet hs
      rw [ha.2.1, ha.2.2] at hle
      exact ⟨a, w', m, hs, ha, hle, hm⟩) h hn
  exact ⟨tr', w', hrun'.mono fun _ _ ha => ha.1, hidle⟩

/-- Steps of the connections alone. -/
theorem exists_conns {tr : List (Ws.Act F ν)} {s : Ws.Server F ν}
    (h : Run (Ws.Step P.format) (fun _ a => a.Unaided) w.ws tr s) :
    ∃ tr', Run (Step P) (fun _ a => a.OfConn) w tr' { w with ws := s } := by
  induction h with
  | nil => exact ⟨[], .nil⟩
  | @snoc tr s s' a _ ha hs ih =>
      obtain ⟨tr', ih⟩ := ih
      cases a with
      | conn c b => exact ⟨_, ih.extend (.conn (w := { w with ws := s }) hs) ha⟩
      | _ => exact ha.elim

/-- Then its connections come to rest. -/
theorem exists_resting_of_idle (hc : w.Calm) (hidle : w.Idle) :
    ∃ tr' s, Run (Step P) (fun _ a => a.OfConn) w tr' { w with ws := s } ∧
      World.Resting { w with ws := s } := by
  obtain ⟨l, hl⟩ := hc.arrived
  have hws : w.ws.Calm := ⟨hc.attends.ws, hc.attends.one.trans hc.shutdown, hc.holds⟩
  obtain ⟨tr, s, hconns, -, -, hrest, hothers⟩ := Ws.exists_rest P.format hws l
  obtain ⟨tr', hrun⟩ := exists_conns hconns
  refine ⟨tr', s, hrun, ⟨hidle.ticking, hidle.sleeping, hidle.worker, hidle.seen, hidle.pending,
    hidle.actor, hidle.handlers⟩, fun c => ?_⟩
  by_cases hcl : c ∈ l
  · exact hrest c hcl
  · have haccepted : w.ws.conn c = .accepted := not_not.mp fun hne => hcl (hl c hne)
    change (s.conn c).Resting s.handle.tx
    rw [hothers c hcl, haccepted]
    trivial

/-- **The relay comes to rest.** -/
theorem exists_resting (h : Reached P radio powerMaxWatts w) :
    ∃ tr' w', Run (Step P) (fun _ a => a.Unaided) w tr' w' ∧ w'.Resting := by
  obtain ⟨tr, m, hrun, hidle⟩ := exists_idle h
  have hc : m.Calm := hrun.invariant (I := fun _ w => w.Calm) h.calm
    fun _ ih ha hs => ih.step ha.quiet hs
  obtain ⟨tr', s, hrun', hrest⟩ := exists_resting_of_idle hc hidle
  exact ⟨_, _, hrun.trans (hrun'.mono fun _ _ ha => ha.unaided), hrest⟩

/-! ### What is done then -/

/-- A step of the connection `c`, which no act of its client is. -/
def Act.ofClient (c : ν) : Act κ ν F → Bool
  | .conn d b => d = c && b.own
  | _ => false

/-- Every reader has had all that is for it. -/
structure UpToDate (P : Setup κ F) (radio : Text) (powerMaxWatts : F) (tr : List (Act κ ν F))
    (w : World κ ν F) : Prop where
  /-- Each request to the rig has its one reply, or was given up. -/
  requests : ∀ job ∈ Rig.requested (toRig tr), job ∈ Rig.abandoned (toRig tr) ∨
    ((Rig.answers (toRig tr)).map Prod.fst).count job = 1
  /-- The loop has taken the replies to its polls. -/
  taken : (Rig.answers (toRig tr)).filter (·.1 ∈ asked tr) = Relay.taken tr
  /-- A client has got every frame since its subscription, unless its connection has ended. -/
  clients : ∀ c tr₁ tr₂, tr = tr₁ ++ .conn c .subscribe :: tr₂ → w.ws.conn c = .returned ∨
    Ws.textsOn c (toWs tr) =
      Ws.welcomeFrame :: (publications tr₂).filterMap (frame P radio powerMaxWatts)
  /-- The last push that the worker was told had succeeded is of the last snapshot, but for changes
  within a bin, unless the push of that snapshot has failed. -/
  wavelog : ∀ latest, ((publications tr).map Prod.fst).getLast? = some latest →
    (∃ s, (Poller.evaluated (toPoller tr)).getLast? = some s ∧ s.state = latest ∧
      Poller.PushFailed (toPoller tr) s) ∨
    ∃ p, Poller.lastSuccess (toPoller tr) = some p ∧ Poller.SameBin P.float p.state latest

/-- What a relay does that is let alone. -/
structure ComesToRest (P : Setup κ F) (radio : Text) (powerMaxWatts : F) (tr : List (Act κ ν F))
    (w : World κ ν F) : Prop where
  /-- Its tasks take so many steps at most, by the ticks, requests and reconnects. -/
  bounded : tr.countP Act.own ≤ 7 + 16 * tr.countP Act.work
  /-- A connection takes so many, by the frames. -/
  connBounded : ∀ c, tr.countP (Act.ofClient c) ≤ 5 + 2 * (publications tr).length
  /-- Whatever is going on, it can come to rest without an answer. -/
  rests : ∃ tr' w', Run (Step P) (fun _ a => a.Unaided) w tr' w' ∧ w'.Resting ∧
    UpToDate P radio powerMaxWatts (tr ++ tr') w'
  upToDate : w.Resting → UpToDate P radio powerMaxWatts tr w

theorem poller_quiet_run (h : Run (Step P) Quietly (.start radio powerMaxWatts) tr w) :
    Run (Poller.Step P.float) Poller.Quiet .start (toPoller tr) w.poller :=
  h.simulate World.poller Act.toPoller (fun hs ha => hs.poller_eq ha)
    fun hq hs ha => ⟨hq.toPoller hs ha, hs.toPoller ha⟩

theorem settles_run (h : Run (Step P) Quietly (.start radio powerMaxWatts) tr w) :
    Poller.Settles P.float (toPoller tr) w.poller := by
  refine (poller_quiet_run h).invariant .start fun hr ih ha hs => ih.step ?_ ha hs
  exact hr.invariant (I := fun _ q => Poller.Calm q) .start fun _ ih ha hs => ih.step ha hs

theorem upToDate_of_resting (h : Run (Step P) Quietly (.start radio powerMaxWatts) tr w)
    (hrest : w.Resting) : UpToDate P radio powerMaxWatts tr w := by
  have hidle := hrest.idle
  have hseen : Poller.Seen (toPoller tr) w.poller :=
    (poller_run h).invariant .start fun _ ih _ hs => ih.any_step hs
  refine ⟨fun job hjob => ?_, ?_, ?_, fun latest hl => ?_⟩
  · refine ((answered_run h).counts.answered hidle.pending hjob).imp_right fun ⟨res, hres⟩ => ?_
    exact List.count_eq_one_of_mem (answered_run h).nodup (List.mem_map_of_mem hres)
  · have hhand : w.inHand = [] :=
      List.filter_eq_nil_iff.mpr fun x _ => by simp [hidle.sleeping x.1]
    rw [(taken_run h).taken, hhand, List.append_nil]
  · rintro c tr₁ tr₂ rfl
    have hws := ws_run h
    have hsplit : toWs (tr₁ ++ .conn c .subscribe :: tr₂) =
        toWs tr₁ ++ .conn c .subscribe :: toWs tr₂ := by
      simp [toWs, Act.toWs]
    rw [hsplit] at hws ⊢
    rw [← frames_toWs]
    exact Ws.sent_of_rest hws (hrest.conns c)
  · rw [← published_toPoller tr (workers_run h)] at hl
    exact Poller.latest_settled hseen (settles_run h) hidle.worker hidle.seen hl

/-- A connection has two steps more to take for each frame. -/
theorem connLeft_step (hc : w.Calm) (hs : Step P w a w') (c : ν) :
    (w'.ws.conn c).left w'.ws.handle.tx.sent + (a.ofClient c).toNat ≤
      (w.ws.conn c).left w.ws.handle.tx.sent + 2 * a.publication.isSome.toNat := by
  cases hs with
  | published now => exact Ws.Phase.left_broadcast _ _ _ _ now
  | @conn d b s hs =>
      have hws : w.ws.Calm := ⟨hc.attends.ws, hc.attends.one.trans hc.shutdown, hc.holds⟩
      by_cases hdc : d = c
      · subst hdc
        simpa [Act.ofClient, Act.publication] using hws.left hs
      · have hother := (hs.other (c := c) fun b' hb => hdc (by cases hb; rfl)).1
        have hhandle := (Ws.Keeps.step hs).handle
        simp [Act.ofClient, Act.publication, hdc, hother, hhandle]
  | _ => exact Nat.le_refl _

theorem connBounded_run (h : Run (Step P) Quietly (.start radio powerMaxWatts) tr w) (c : ν) :
    tr.countP (Act.ofClient c) ≤ 5 + 2 * (publications tr).length := by
  have hstart : (Ws.Phase.accepted).left 0 ≤ 5 ∧
      (World.start radio powerMaxWatts : World κ ν F).Calm := ⟨Nat.le_refl _, .start⟩
  obtain ⟨m, -, hle⟩ := h.spent
    (fun n w => (w.ws.conn c).left w.ws.handle.tx.sent ≤ n ∧ w.Calm) (Act.ofClient c)
    (fun a => a.publication.isSome) 2
    (fun ha hs hb => ⟨_, ⟨Nat.le_refl _, hb.2.step ha hs⟩,
      Nat.le_trans (connLeft_step hb.2 hs c) (Nat.add_le_add_right hb.1 _)⟩) hstart
  rw [publications, List.length_filterMap_eq_countP]
  omega

/-- **A relay that is let alone comes to rest**, and then every reader is up to date. -/
theorem comes_to_rest (h : Run (Step P) Quietly (.start radio powerMaxWatts) tr w) :
    ComesToRest P radio powerMaxWatts tr w := by
  refine ⟨?_, connBounded_run h, ?_, upToDate_of_resting h⟩
  · obtain ⟨m, -, hle⟩ := left_run h
    omega
  · obtain ⟨tr', w', hrun, hrest⟩ := exists_resting ⟨tr, h⟩
    have hall := h.trans (hrun.mono fun _ _ ha => Act.Unaided.quiet ha)
    exact ⟨tr', w', hrun, hrest, upToDate_of_resting hall hrest⟩

theorem poll_comes_to_rest : ComesToRest secondSetup "IC-7300".toList 100 pollActs pollEnd :=
  comes_to_rest (poll_run.restrict (by simp [pollActs, pollTalk, rigAct, Act.Quiet]))

end Reached

end Relay

end WavelogRelay
