import WavelogRelay.Relay.Awake
import WavelogRelay.Relay.EndToEnd

/-!
# Relay — what is left to do

Each step that a task takes of its own accord leaves it less to do.  A tick, the end of a reconnect
sleep and a click-to-tune request bring it more.

* `Bound`, for each of the parts: at most so many steps of its own are left.
* `Due`: whoever waits for the rig waits for a request that is pending or answered.
* `exists_unaided`: the actor is never stuck on a request.
-/

namespace WavelogRelay
open Library

/-! ### The rig -/

namespace Rig

variable {F : Type} {R : F32 F} {w w' : World F} {a : Act F}

/-- A step of the actor, or of a request on its way to it. -/
def Act.own : Act F → Bool
  | .requested _ | .woke _ => false
  | _ => true

/-- Without requests, too, what is left to do decreases. -/
theorem Bound.settle {n : Nat} (h : Bound n w) (hs : Step R w a w') (ha : a.own = true)
    (hd : a ≠ .handlesDropped) : ∃ m, m < n ∧ Bound m w' := by
  by_cases hp : w.pending = []
  · obtain ⟨hw, hc, hj⟩ := pending_eq_nil.mp hp
    obtain ⟨d, hph, hn⟩ := h
    cases hs with
    | requested | woke => cases ha
    | handlesDropped => exact absurd rfl hd
    | abandoned h | sent h => simp [h] at hw
    | received _ h | drained _ h => simp [h] at hc
    | wire h | served h | lost h => simp [h, Phase.jobs] at hj
    | connected h =>
        rw [h] at hph
        cases hph
        exact ⟨n - 1, by omega, 1, .serving, by simp; omega⟩
    | connectFailed h =>
        rw [h] at hph
        cases hph
        exact ⟨n - 1, by omega, 1, .sleeping, by simp [World.failed]; omega⟩
    | stoppedServing h | stoppedSleeping h =>
        rw [h] at hph
        cases hph
        exact ⟨n - 1, by omega, 0, .stopped, by simp; omega⟩
  · refine h.step hs ?_ hp
    cases a with
    | requested | woke => cases ha
    | handlesDropped => exact absurd rfl hd
    | _ => trivial

theorem Bound.request {n : Nat} (h : Bound n w) (job : Job) :
    Bound (n + 11) { w with requests := w.requests + 1, waiting := w.waiting ++ [job] } := by
  obtain ⟨d, hd, hn⟩ := h
  exact ⟨d, hd, by simp; omega⟩

theorem Bound.woke {n delay : Nat} (h : Bound n w) (hs : Step R w (.woke delay) w') :
    Bound (n + 1) w' := by
  obtain ⟨d, hd, hn⟩ := h
  cases hs with
  | woke hp =>
      rw [hp] at hd
      cases hd
      exact ⟨2, .connecting, by simp; omega⟩

theorem Bound.mono {m n : Nat} (h : Bound m w) (hle : m ≤ n) : Bound n w := by
  obtain ⟨d, hd, hm⟩ := h
  exact ⟨d, hd, Nat.le_trans hm hle⟩

/-- A handle left is a step left. -/
def World.handleLeft (w : World F) : Nat := w.handles.toNat

theorem Step.handleLeft_le (hs : Step R w a w') : w'.handleLeft ≤ w.handleLeft := by
  cases hs with
  | handlesDropped => exact Nat.zero_le _
  | _ => exact Nat.le_refl _

/-- The steps left, with that of dropping the handles. -/
def Left (n : Nat) (w : World F) : Prop := ∃ m, Bound m w ∧ m + w.handleLeft ≤ n

theorem Left.own {n : Nat} (h : Left n w) (hs : Step R w a w') (ha : a.own = true) :
    ∃ m, m < n ∧ Left m w' := by
  obtain ⟨m, hb, hle⟩ := h
  have hh := hs.handleLeft_le
  by_cases hd : a = .handlesDropped
  · subst hd
    cases hs with
    | handlesDropped h =>
        refine ⟨m, ?_, m, hb, Nat.le_refl _⟩
        simp only [World.handleLeft, h, Bool.toNat_true] at hle
        exact hle
  · obtain ⟨m', hlt, hb'⟩ := hb.settle hs ha hd
    exact ⟨m' + w'.handleLeft, by omega, m', hb', Nat.le_refl _⟩

/-! ### Progress of the rig -/

/-- The connection fails. -/
def Fails : WireEvent → Prop
  | ⟨.send _, .error _⟩ | ⟨.readLine, .error _⟩ => True
  | ⟨.send _, .ok _⟩ | ⟨.readLine, .ok _⟩ => False

/-- A step that needs neither rigctld nor a client. -/
def Act.Unaided : Act F → Prop
  | .sent _ | .connectFailed | .received _ _ | .served _ _ _ | .lost _ _ _ | .drained _
  | .stopped => True
  | .wire _ e => Fails e
  | .requested _ | .abandoned _ | .handlesDropped | .connected _ | .woke _ => False

theorem Act.Unaided.own (h : a.Unaided) : a.own = true := by
  cases a with
  | requested | woke => exact h.elim
  | _ => rfl

/-- With an empty channel, a request is sent or the actor stops. -/
theorem exists_sent_or_stopped (hc : w.chan = []) (hj : w.phase.jobs = [])
    (hp : w.pending ≠ [] ∨ w.handles = false)
    (hstop : w.handles = false → Step R w .stopped { w with phase := .stopped }) :
    ∃ a w', Step R w a w' ∧ a.Unaided := by
  cases hw : w.waiting with
  | nil =>
      have hh := hp.resolve_left fun h => h (pending_eq_nil.mpr ⟨hw, hc, hj⟩)
      exact ⟨_, _, hstop hh, trivial⟩
  | cons job rest =>
      exact ⟨_, _, .sent (l := []) hw (by simp [hc, channelCapacity]), trivial⟩

/-- **The actor is never stuck** on a request, or once its handles are gone. -/
theorem exists_unaided (R : F32 F) (hp : w.pending ≠ [] ∨ w.handles = false)
    (hst : w.phase ≠ .stopped) : ∃ a w', Step R w a w' ∧ a.Unaided := by
  cases hph : w.phase with
  | connecting => exact ⟨_, _, .connectFailed hph, trivial⟩
  | serving conn =>
      cases hc : w.chan with
      | nil => exact exists_sent_or_stopped hc (by rw [hph]; rfl) hp (.stoppedServing hph hc)
      | cons job rest => exact ⟨_, _, .received hph hc, trivial⟩
  | running conn job rest =>
      cases rest with
      | ask q k =>
          cases q with
          | send line => exact ⟨_, _, .wire hph (.error .timedOut), trivial⟩
          | readLine => exact ⟨_, _, .wire hph (.error .timedOut), trivial⟩
      | done res =>
          cases res with
          | ok res => exact ⟨_, _, .served hph, trivial⟩
          | error e => exact ⟨_, _, .lost hph, trivial⟩
  | sleeping delay =>
      cases hc : w.chan with
      | nil => exact exists_sent_or_stopped hc (by rw [hph]; rfl) hp (.stoppedSleeping hph hc)
      | cons job rest => exact ⟨_, _, .drained hph hc, trivial⟩
  | stopped => exact absurd hph hst

/-- A pending request stays pending until it is answered or abandoned. -/
theorem Step.pending_or (hs : Step R w a w') {job : Job} (hj : job ∈ w.pending) :
    job ∈ w'.pending ∨ a = .abandoned job ∨ ∃ res, a.answer = some (job, res) := by
  simp only [World.pending, List.mem_append] at hj ⊢
  cases hs with
  | requested =>
      simp only [List.mem_append]
      tauto
  | @abandoned l r job' hw =>
      by_cases heq : job' = job
      · exact .inr (.inl (heq ▸ rfl))
      · have hne : job ≠ job' := fun h => heq h.symm
        simp only [hw, List.mem_append, List.mem_cons] at hj ⊢
        tauto
  | sent hw =>
      simp only [hw, List.mem_append, List.mem_cons, List.not_mem_nil, or_false] at hj ⊢
      tauto
  | handlesDropped => exact .inl hj
  | received hp hchan =>
      simp only [hp, hchan, Phase.jobs, List.mem_cons, List.not_mem_nil, or_false] at hj ⊢
      tauto
  | wire hp =>
      simp only [hp, Phase.jobs] at hj ⊢
      exact .inl hj
  | served hp | lost hp =>
      simp only [hp, Phase.jobs, List.mem_singleton] at hj
      rcases hj with hj | rfl
      · exact .inl (.inl hj)
      · exact .inr (.inr ⟨_, rfl⟩)
  | drained hp hchan =>
      simp only [hchan, List.mem_cons] at hj ⊢
      rcases hj with (hj | rfl | hj) | hj
      · exact .inl (.inl (.inl hj))
      · exact .inr (.inr ⟨_, rfl⟩)
      · exact .inl (.inl (.inr hj))
      · exact .inl (.inr hj)
  | connected hp | connectFailed hp | woke hp | stoppedServing hp | stoppedSleeping hp =>
      rw [hp] at hj
      exact .inl hj

/-- **With nothing pending**, each request has been answered or given up. -/
theorem Counts.answered {tr : List (Act F)} (h : Counts tr w) (hp : w.pending = []) {job : Job}
    (hj : job ∈ requested tr) : job ∈ abandoned tr ∨ ∃ res, (job, res) ∈ answers tr := by
  obtain ⟨hw, hc, hph⟩ := pending_eq_nil.mp hp
  have hbal := h.balance job
  have hpos := List.count_pos_iff.mpr hj
  simp only [hw, hc, hph, List.count_nil] at hbal
  by_cases hab : job ∈ abandoned tr
  · exact .inl hab
  · rw [List.count_eq_zero.mpr hab] at hbal
    have hmem : job ∈ (answers tr).map Prod.fst := List.count_pos_iff.mp (by omega)
    obtain ⟨⟨job', res⟩, hans, rfl⟩ := List.mem_map.mp hmem
    exact .inr ⟨res, hans⟩

end Rig

/-! ### The click-to-tune handlers -/

namespace Listener
open Rig (F32 Job)

variable {ν F : Type}

def Act.own : Act ν F → Bool
  | .resumed _ _ => true
  | .rig a => a.own
  | .refused _ _ | .dispatched _ _ | .dropped _ => false

/-- A request is made, or a sleep of the actor is over. -/
def Act.work : Act ν F → Bool
  | .dispatched _ _ => true
  | .rig a => !a.own
  | .refused _ _ | .resumed _ _ | .dropped _ => false

/-- The steps left to the rig, and one for each handler that waits for it. -/
def Bound (n : Nat) (s : System ν F) : Prop :=
  ∃ r, Rig.Left r s.rig ∧ ∃ l : List ν, (∀ c job, s.stage c = .setting job → c ∈ l) ∧
    r + l.length ≤ n

variable [DecidableEq ν] {R : F32 F} {state : AppState} {request : ν → Request}
  {s s' : System ν F} {a : Act ν F}

/-- A stage that does not wait for the rig is in no list of those that do. -/
theorem covers_setStage {l : List ν} (h : ∀ c job, s.stage c = .setting job → c ∈ l) {c : ν}
    {stage : Stage} (hs : ∀ job, stage ≠ .setting job) (c' : ν) (job : Job)
    (hc : (s.setStage c stage).stage c' = .setting job) : c' ∈ l.erase c := by
  obtain ⟨hne, hold⟩ := System.setting_of_setStage hs hc
  exact (List.mem_erase_of_ne hne).mpr (h c' job hold)

theorem Bound.step {n : Nat} (h : Bound n s) (hs : Step R state request s a s') :
    ∃ m, Bound m s' ∧ m + a.own.toNat ≤ n + 12 * a.work.toNat := by
  obtain ⟨r, hr, l, hl, hn⟩ := h
  have hdone : ∀ c stage, (∀ job, stage ≠ Stage.setting job) →
      Bound (r + (l.erase c).length) (s.setStage c stage) := fun c stage hstage =>
    ⟨r, hr, l.erase c, covers_setStage hl hstage, Nat.le_refl _⟩
  have herase : ∀ c, (l.erase c).length ≤ l.length := fun c => List.length_erase_le
  cases hs with
  | @refused c =>
      refine ⟨_, hdone _ _ nofun, ?_⟩
      have := herase c
      simp only [Act.own, Act.work, Bool.toNat_false]
      omega
  | @dropped c =>
      refine ⟨_, hdone _ _ nofun, ?_⟩
      have := herase c
      simp only [Act.own, Act.work, Bool.toNat_false]
      omega
  | @resumed c job _ hc =>
      refine ⟨_, hdone _ _ nofun, ?_⟩
      have hpos := List.length_pos_of_mem (hl c job hc)
      have := List.length_erase_of_mem (hl c job hc)
      simp only [Act.own, Act.work, Bool.toNat_false, Bool.toNat_true]
      omega
  | @dispatched c freq mode hc =>
      obtain ⟨m, hb, hm⟩ := hr
      have hleft : m + 11 + s.rig.handleLeft ≤ r + 11 := by omega
      refine ⟨r + 11 + (c :: l).length,
        ⟨r + 11, ⟨m + 11, hb.request _, hleft⟩, c :: l, ?_, Nat.le_refl _⟩, ?_⟩
      · intro c' job hc'
        by_cases heq : c' = c
        · exact heq ▸ List.mem_cons_self
        · refine List.mem_cons_of_mem c (hl c' job ?_)
          simpa [System.setStage, Function.update_of_ne heq] using hc'
      · simp only [Act.own, Act.work, Bool.toNat_false, Bool.toNat_true, List.length_cons]
        omega
  | @rig b r' hs ha =>
      cases hown : b.own with
      | true =>
          obtain ⟨m, hlt, hm⟩ := hr.own hs hown
          refine ⟨m + l.length, ⟨m, hm, l, hl, Nat.le_refl _⟩, ?_⟩
          simp only [Act.own, Act.work, hown, Bool.toNat_true]
          omega
      | false =>
          obtain ⟨m, hb, hm⟩ := hr
          have hle := hs.handleLeft_le
          have hleft : m + 11 + r'.handleLeft ≤ r + 11 := by omega
          have hmore : Rig.Bound (m + 11) r' := by
            cases b with
            | requested job =>
                cases hs with
                | requested cmd hh => exact hb.request _
            | woke delay => exact (hb.woke hs).mono (by omega)
            | _ => cases hown
          refine ⟨r + 11 + l.length, ⟨r + 11, ⟨m + 11, hmore, hleft⟩, l, hl, Nat.le_refl _⟩, ?_⟩
          simp only [Act.own, Act.work, hown, Bool.not_false, Bool.toNat_false, Bool.toNat_true]
          omega

/-! ### Replies -/

/-- The request is pending, or has its reply. -/
def System.Due (s : System ν F) (job : Job) : Prop :=
  job ∈ s.rig.pending ∨ ∃ res, (job, res) ∈ s.replies

/-- Each handler that waits for the rig is due a reply. -/
def System.AllDue (s : System ν F) : Prop := ∀ c job, s.stage c = .setting job → s.Due job

theorem System.Due.step {job : Job} (h : s.Due job) (hs : Step R state request s a s')
    (ha : a ≠ .rig (.abandoned job)) : s'.Due job := by
  cases hs with
  | refused | resumed | dropped => exact h
  | dispatched =>
      refine h.imp_left fun hp => ?_
      simp only [Rig.World.pending, List.mem_append] at hp ⊢
      tauto
  | @rig b w hs =>
      rcases h with hp | ⟨res, hr⟩
      · rcases hs.pending_or hp with hp' | rfl | ⟨res, hres⟩
        · exact .inl hp'
        · exact absurd rfl ha
        · exact .inr ⟨res, List.mem_append_right _ (by simp [hres])⟩
      · exact .inr ⟨res, List.mem_append_left _ hr⟩

theorem System.AllDue.step (h : s.AllDue) (hs : Step R state request s a s') : s'.AllDue := by
  intro c job hc
  have hold : s.stage c = .setting job → s'.Due job := fun hc' => by
    refine (h c job hc').step hs ?_
    rintro rfl
    cases hs with
    | rig _ ha => exact ha job rfl c hc'
  have hset : ∀ c' stage, s' = s.setStage c' stage → (∀ job, stage ≠ .setting job) →
      s'.Due job := fun c' stage heq hne =>
    hold (System.setting_of_setStage hne (heq ▸ hc)).2
  cases hs with
  | refused | resumed | dropped => exact hset _ _ rfl nofun
  | @dispatched c' freq mode hc' =>
      by_cases heq : c = c'
      · subst heq
        obtain rfl : _ = job := by simpa [System.setStage] using hc
        exact .inl (by simp [Rig.World.pending])
      · exact hold (by simpa [System.setStage, Function.update_of_ne heq] using hc)
  | rig => exact hold hc

end Listener

/-! ### The tick loop and the radio worker -/

namespace Poller

variable {F : Type}

def Worker.left : Worker F → Nat
  | .unspawned | .stopped => 0
  | .spawned | .idle => 1
  | .pushing _ _ => 2

/-- The worker may have a snapshot to look at. -/
def World.workerLeft (w : World F) : Nat :=
  w.worker.left + if w.states.version = w.statesSeen then 0 else 2

variable {R : Rig.F32 F} {w w' : World F} {a : Act F}

theorem workerLeft_of_seen (h : w.statesSeen = w.states.version) :
    w.workerLeft = w.worker.left := by
  rw [World.workerLeft, if_pos h.symm, Nat.add_zero]

/-- There is a snapshot to look at. -/
theorem workerLeft_of_changed {seen : Nat} (hw : w.worker = .idle)
    (hc : w.states.changed w.statesSeen = some (true, seen)) : w.workerLeft = 3 := by
  rw [World.workerLeft, if_neg ((Watch.changed_spec hc).2.2 rfl), hw]
  rfl

theorem left_le_workerLeft (w : World F) : w.worker.left ≤ w.workerLeft := Nat.le_add_right _ _

theorem workerLeft_le (w : World F) : w.workerLeft ≤ w.worker.left + 2 := by
  rw [World.workerLeft]
  split <;> omega

theorem workerLeft_of_stopped (hw : w.worker.left = 1 ∨ w.worker.left = 2) (q : World F)
    (hq : q.worker = .stopped) (hst : q.states = w.states) (hseen : q.statesSeen = w.statesSeen) :
    q.workerLeft < w.workerLeft := by
  have hzero : q.worker.left = 0 := by rw [hq]; rfl
  rw [World.workerLeft, World.workerLeft, hst, hseen, hzero]
  omega

/-- A step of the worker leaves it less to do, unless it is its first, when no notification lets it
go on. -/
theorem workerLeft_lt (hst : w.worker = .spawned → w.shutdown.value = true)
    (hobs : ∀ {ok seen}, w.shutdown.changed w.workerSeen = some (ok, seen) →
      shutdownObserved ok w.shutdown = true)
    (hs : Step R w a w') (ha : Relay.ofWorker a) : w'.workerLeft < w.workerLeft := by
  cases hs with
  | shutdown | senderDropped | runReturns | runStarts | published | pollFailed => exact ha.elim
  | tickerNotified => exact ha.elim
  | workerReturns hw => exact workerLeft_of_stopped (.inl (by rw [hw]; rfl)) _ rfl rfl rfl
  | workerStarts hw hs => exact Bool.noConfusion ((hst hw).symm.trans hs)
  | statesClosed hw => exact workerLeft_of_stopped (.inl (by rw [hw]; rfl)) _ rfl rfl rfl
  | emptied hw hc | skipped hw hc =>
      rw [workerLeft_of_changed hw hc, workerLeft_of_seen rfl]
      change w.worker.left < 3
      rw [hw]
      exact Nat.lt_of_sub_eq_succ rfl
  | started hw hc =>
      rw [workerLeft_of_changed hw hc, workerLeft_of_seen rfl]
      exact Nat.lt_succ_self 2
  | pushed hw =>
      refine Nat.add_lt_add_right ?_ _
      rw [hw]
      exact Nat.lt_succ_self 1
  | cancelled hw _ hc =>
      rw [hobs hc, if_pos rfl]
      exact workerLeft_of_stopped (.inr (by rw [hw]; rfl)) _ rfl rfl rfl
  | workerNotified hw hc =>
      rw [hobs hc, if_pos rfl]
      exact workerLeft_of_stopped (.inl (by rw [hw]; rfl)) _ rfl rfl rfl

/-- The first step of the worker. -/
theorem workerLeft_of_spawned (hw : w.worker = .spawned) (hs : Step R w a w')
    (ha : Relay.ofWorker a) : w'.worker ≠ .spawned ∧ w'.workerLeft ≤ w.workerLeft := by
  cases hs with
  | shutdown | senderDropped | runReturns | runStarts | published | pollFailed => exact ha.elim
  | tickerNotified => exact ha.elim
  | workerReturns =>
      refine ⟨fun h => (by cases h), ?_⟩
      rw [World.workerLeft, World.workerLeft, hw]
      exact Nat.add_le_add_right (Nat.zero_le _) _
  | workerStarts =>
      refine ⟨fun h => (by cases h), ?_⟩
      rw [World.workerLeft, World.workerLeft, hw]
      exact Nat.le_refl _
  | statesClosed hw' | emptied hw' | skipped hw' | started hw' | pushed hw' | cancelled hw'
  | workerNotified hw' => cases hw.symm.trans hw'

/-- It is never spawned again. -/
theorem worker_ne_spawned (hw : w.worker ≠ .spawned) (hs : Step R w a w')
    (ha : Relay.ofWorker a) : w'.worker ≠ .spawned := by
  cases hs with
  | shutdown | senderDropped | runReturns | runStarts | published | pollFailed => exact ha.elim
  | tickerNotified => exact ha.elim
  | emptied | skipped => exact hw
  | cancelled | workerNotified =>
      dsimp only
      split <;> exact fun h => by cases h
  | workerReturns | workerStarts | statesClosed | started | pushed => exact fun h => by cases h

end Poller

namespace Relay

variable {κ ν F : Type}

def Act.own : Act κ ν F → Bool
  | .listener a => a.own
  | .returned | .started | .published _ _ _ | .failed _ _ | .stopped | .notified | .worker _ => true
  | .elapsed _ | .asked _ | .conn _ _ | .shutdown _ | .senderDropped => false

def Act.work : Act κ ν F → Bool
  | .listener a => a.work
  | .asked _ => true
  | _ => false

def World.loopLeft (w : World κ ν F) : Nat :=
  match w.poller.ticker, w.loop with
  | .stopped, _ => 0
  | .spawned, _ | .ticking, .sleeping _ => 1
  | .ticking, .polling _ => 4

theorem loopLeft_sleeping {w : World κ ν F} {wake : Duration} (ht : w.poller.ticker = .ticking)
    (hl : w.loop = .sleeping wake) : w.loopLeft = 1 := by
  rw [World.loopLeft, ht, hl]

theorem loopLeft_polling {w : World κ ν F} {job : Rig.Job} (ht : w.poller.ticker = .ticking)
    (hl : w.loop = .polling job) : w.loopLeft = 4 := by
  rw [World.loopLeft, ht, hl]

/-- The steps left to the rig and its handlers, to the loop and to the worker. -/
def Bound (n : Nat) (w : World κ ν F) : Prop :=
  ∃ m, Listener.Bound m w.listener ∧ m + w.loopLeft + w.poller.workerLeft ≤ n

variable [DecidableEq κ] [DecidableEq ν] {P : Setup κ F} {w w' : World κ ν F} {a : Act κ ν F}

omit [DecidableEq κ] [DecidableEq ν] in
/-- Steps of the loop or of the worker, which leave the listener as it is. -/
theorem Bound.less {n k loop worker : Nat} (h : Bound n w) (hl : w'.listener = w.listener)
    (hloop : w'.loopLeft = loop) (hworker : w'.poller.workerLeft ≤ worker)
    (hle : loop + worker + k ≤ w.loopLeft + w.poller.workerLeft) :
    ∃ m, Bound m w' ∧ m + k ≤ n := by
  obtain ⟨m, hb, hn⟩ := h
  exact ⟨m + w'.loopLeft + w'.poller.workerLeft, ⟨m, hl ▸ hb, Nat.le_refl _⟩, by omega⟩

omit [DecidableEq κ] [DecidableEq ν] in
theorem Bound.worker {n k : Nat} {b : Poller.Act F} {q : Poller.World F} (h : Bound n w)
    (hs : Poller.Step P.float w.poller b q) (ha : ofWorker b)
    (hle : q.workerLeft + k ≤ w.poller.workerLeft) :
    ∃ m, Bound m { w with poller := q } ∧ m + k ≤ n := by
  have hloop : World.loopLeft { w with poller := q } = w.loopLeft := by
    rw [World.loopLeft, World.loopLeft, ticker_of_worker hs ha]
  refine h.less rfl hloop (Nat.le_refl _) ?_
  change w.loopLeft + q.workerLeft + k ≤ _
  omega

/-- Neither the start of a task, nor one that the shutdown channel has a part in. -/
def Act.Goes : Act κ ν F → Prop
  | .elapsed _ | .listener _ | .asked _ | .published _ _ _ | .failed _ _ | .conn _ _ => True
  | _ => False

/-- **What goes on leaves less to do**, whatever the channel holds. -/
theorem Bound.go {n : Nat} (h : Bound n w) (ha : a.Goes) (hs : Step P w a w') :
    ∃ m, Bound m w' ∧ m + a.own.toNat ≤ n + 16 * a.work.toNat := by
  obtain ⟨m, hb, hn⟩ := id h
  cases hs with
  | returned | started | stopped | notified | worker | shutdown | senderDropped => exact ha.elim
  | elapsed => exact ⟨n, ⟨m, hb, hn⟩, Nat.le_refl _⟩
  | conn => exact ⟨n, ⟨m, hb, hn⟩, Nat.le_refl _⟩
  | @listener b l hs =>
      obtain ⟨m', hb', hle⟩ := hb.step hs
      refine ⟨m' + w.loopLeft + w.poller.workerLeft, ⟨m', hb', Nat.le_refl _⟩, ?_⟩
      simp only [Act.own, Act.work]
      omega
  | asked ht hl hwake hs =>
      obtain ⟨m', hb', hle⟩ := hb.step hs
      have hleft := loopLeft_sleeping ht hl
      refine ⟨m' + 4 + w.poller.workerLeft, ⟨m', hb', ?_⟩, ?_⟩
      · rw [World.loopLeft, ht]
      · simp only [Act.own, Act.work, Listener.Act.own, Listener.Act.work, Rig.Act.own,
          Bool.not_false, Bool.toNat_false, Bool.toNat_true] at hle ⊢
        omega
  | published now ht hl =>
      refine h.less rfl (loopLeft_sleeping ht rfl) (Poller.workerLeft_le _) ?_
      rw [loopLeft_polling ht hl]
      change 1 + (w.poller.worker.left + 2) < _
      have hold := Poller.left_le_workerLeft w.poller
      omega
  | failed ht hl =>
      refine h.less rfl (loopLeft_sleeping ht rfl) (Nat.le_refl _) ?_
      rw [loopLeft_polling ht hl]
      exact Nat.add_lt_add_right (by decide) _

/-- After the signal. -/
theorem Bound.step {n : Nat} (h : Bound n w) (hv : w.poller.shutdown.value = true)
    (ha : a.Quiet) (hs : Step P w a w') :
    ∃ m, Bound m w' ∧ m + a.own.toNat ≤ n + 16 * a.work.toNat := by
  have hobs : ∀ ok, shutdownObserved ok w.poller.shutdown = true := fun ok => by
    simp [shutdownObserved, hv]
  have hstep := hs
  cases hs with
  | elapsed | listener | asked | published | failed | conn => exact h.go trivial hstep
  | shutdown | senderDropped => exact ha.elim
  | returned ht =>
      refine h.less rfl (rfl : _ = 0) (Nat.le_refl _) ?_
      have hleft : w.loopLeft = 1 := by rw [World.loopLeft, ht]
      rw [hleft]
      exact Nat.add_lt_add_right Nat.zero_lt_one _
  | started _ hup => exact Bool.noConfusion (hv.symm.trans hup)
  | stopped ht hl =>
      refine h.less rfl (rfl : _ = 0) (Nat.le_refl _) ?_
      rw [loopLeft_sleeping ht hl]
      exact Nat.add_lt_add_right Nat.zero_lt_one _
  | notified ht hl hc hno => exact Bool.noConfusion ((hobs _).symm.trans hno)
  | worker hq hw =>
      exact h.worker hq hw (Poller.workerLeft_lt (fun _ => hv) (fun _ => hobs _) hq hw)

/-! ### Replies to the loop -/

/-- The loop is due a reply to its poll, and so is each handler. -/
structure World.Due (w : World κ ν F) : Prop where
  handlers : w.listener.AllDue
  loop : ∀ job, w.loop = .polling job → w.listener.Due job

omit [DecidableEq κ] [DecidableEq ν] in
theorem World.Due.start {radio : Text} {powerMaxWatts : F} :
    (World.start radio powerMaxWatts : World κ ν F).Due :=
  ⟨fun _ _ h => (by cases h), fun _ h => (by cases h)⟩

theorem World.Due.step (h : w.Due) (hs : Step P w a w') : w'.Due := by
  obtain ⟨hh, hl⟩ := h
  cases hs with
  | @listener b l hs ha =>
      refine ⟨hh.step hs, fun job hj => (hl job hj).step hs ?_⟩
      rintro rfl
      exact ha hj
  | asked ht hlp hwake hs =>
      refine ⟨hh.step hs, fun job hj => ?_⟩
      cases hj
      cases hs with
      | rig hs =>
          cases hs with
          | requested => exact .inl (by simp [Rig.World.pending])
  | started | published | failed | notified => exact ⟨hh, fun _ h => by cases h⟩
  | elapsed | returned | stopped | worker | conn | shutdown | senderDropped => exact ⟨hh, hl⟩

/-- What the actor replies to a poll is a state or an error. -/
theorem reply_of_poll {C : World κ ν F → Act κ ν F → Prop} {radio : Text} {powerMaxWatts : F}
    {tr : List (Act κ ν F)} (h : Run (Step P) C (.start radio powerMaxWatts) tr w) {job : Rig.Job}
    {reply : Rig.Reply F} (hl : w.loop = .polling job)
    (hr : (job, .ok reply) ∈ w.listener.replies) : ∃ state, reply = .state state := by
  have htaken := taken_run h
  have hcmd := htaken.poll job (htaken.polling job hl)
  have hacc := Rig.account (Listener.recorded (listener_run h))
  have hrep := hacc.replied job _ ((answered_run h).replies ▸ hr)
  generalize hres : Except.ok reply = res at hrep
  cases hrep with
  | drained => cases hres
  | @talked r htalk =>
      rcases r with e | r
      · cases hres
      · obtain rfl : Except.ok reply = r := hres
        rw [hcmd] at htalk
        obtain ⟨state, hstate, -⟩ := Rig.said_of_talk htalk
        exact ⟨state, hstate⟩

end Relay

end WavelogRelay
