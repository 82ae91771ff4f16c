import WavelogRelay.Relay.EndToEnd

/-!
# Relay — when the loop polls

The time of a run is read off its `elapsed` acts.

* `Slept.step`: a loop that sleeps has begun to after its last act, for the cadence that the rig's
  history made then.
* `Rated.step`: each poll has had its interval.
* `paced`: so the loop makes one poll at a time, no sooner than the cadence after it took the reply
  to the last.
-/

namespace WavelogRelay.Relay
open Library Poller
open Rig (DegradedKind streak)

variable {κ ν F : Type}

def Act.time : Act κ ν F → Duration
  | .elapsed time => time
  | _ => 0

/-- The time that the acts take. -/
def timeOf : List (Act κ ν F) → Duration
  | [] => 0
  | a :: tr => a.time + timeOf tr

theorem timeOf_append (tr tr' : List (Act κ ν F)) :
    timeOf (tr ++ tr') = timeOf tr + timeOf tr' := by
  induction tr with
  | nil => exact (Nat.zero_add _).symm
  | cons a tr ih => rw [List.cons_append, timeOf, timeOf, ih, Nat.add_assoc]

theorem timeOf_snoc (tr : List (Act κ ν F)) (a : Act κ ν F) :
    timeOf (tr ++ [a]) = timeOf tr + a.time := timeOf_append tr [a]

/-- The loop comes to its top, and a sleep starts. -/
def Act.StartsSleep : Act κ ν F → Prop
  | .started | .published _ _ _ | .failed _ _ | .notified => True
  | _ => False

/-- An act of the loop. -/
def Act.OfLoop : Act κ ν F → Prop
  | .asked _ | .stopped => True
  | a => a.StartsSleep

/-- The cadence after a streak of failures: the degraded one when it begins with three of one
kind. -/
def Cadence (P : Setup κ F) (streak : List DegradedKind) (cadence : Duration) : Prop :=
  (ThreeAlike streak → cadence = degradedInterval) ∧
    (¬ ThreeAlike streak → cadence = P.tickInterval)

/-- The shortest time between two polls. -/
def shortest (P : Setup κ F) : Duration := min P.tickInterval degradedInterval

variable {P : Setup κ F} {w w' : World κ ν F} {tr : List (Act κ ν F)} {a : Act κ ν F}
  {radio : Text} {powerMaxWatts : F}

theorem Cadence.shortest_le {streak : List DegradedKind} {cadence : Duration}
    (h : Cadence P streak cadence) : shortest P ≤ cadence := by
  by_cases hs : ThreeAlike streak
  · rw [h.1 hs]
    exact Nat.min_le_right _ _
  · rw [h.2 hs]
    exact Nat.min_le_left _ _

/-! ### The sleep -/

/-- The last act of the loop has started the sleep, for the cadence of what had happened. -/
structure SleptSince (P : Setup κ F) (tr : List (Act κ ν F)) (wake : Duration)
    (u : List (Act κ ν F)) (a : Act κ ν F) (v : List (Act κ ν F)) : Prop where
  split : tr = u ++ a :: v
  starts : a.StartsSleep
  alone : ∀ b ∈ v, ¬ b.OfLoop
  /-- The replies to all polls have been taken by then. -/
  taken : ∀ job ∈ asked tr, job ∈ (taken (u ++ [a])).map Prod.fst
  wake : ∃ cadence, Cadence P (streak (toRig (u ++ [a]))) cadence ∧
    wake = timeOf (u ++ [a]) + cadence

def Slept (P : Setup κ F) (tr : List (Act κ ν F)) (w : World κ ν F) : Prop :=
  w.poller.ticker = .ticking → ∀ wake, w.loop = .sleeping wake →
    ∃ u a v, SleptSince P tr wake u a v

/-- An act that is none of the loop's. -/
theorem Slept.more (h : Slept P tr w) (ha : ¬ a.OfLoop) (hq : a.asking = none)
    (ht : w'.poller.ticker = w.poller.ticker) (hl : w'.loop = w.loop) :
    Slept P (tr ++ [a]) w' := by
  intro ht' wake hl'
  obtain ⟨u, b, v, hs⟩ := h (ht ▸ ht') wake (hl ▸ hl')
  refine ⟨u, b, v ++ [a], by simp [hs.split], hs.starts, fun c hc => ?_, fun job hj => ?_, hs.wake⟩
  · rcases List.mem_append.mp hc with hc | hc
    · exact hs.alone c hc
    · exact List.mem_singleton.mp hc ▸ ha
  · exact hs.taken job (by simpa [hq] using hj)

variable [DecidableEq κ] [DecidableEq ν]

theorem clock_run {C : World κ ν F → Act κ ν F → Prop}
    (h : Run (Step P) C (.start radio powerMaxWatts) tr w) : w.clock = timeOf tr := by
  refine h.invariant (I := fun tr w => w.clock = timeOf tr) rfl ?_
  rintro tr s a s' - ih - hs
  rw [timeOf_snoc, ← ih]
  cases hs <;> rfl

/-- The cadence that the loop samples is that of the rig's history. -/
theorem cadence_run {C : World κ ν F → Act κ ν F → Prop}
    (h : Run (Step P) C (.start radio powerMaxWatts) tr w) :
    Cadence P (streak (toRig tr)) (cadenceFor w.listener.rig.health.tx.value P.tickInterval) := by
  have hr := Rig.reflects_streak (rig_run h)
  rw [hr.published, hr.state_eq]
  exact cadenceFor_stateOf _ _

/-- An act that starts a sleep. -/
theorem slept_of_sleep {C : World κ ν F → Act κ ν F → Prop}
    (h : Run (Step P) C (.start radio powerMaxWatts) (tr ++ [a]) w) (ha : a.StartsSleep)
    (hl : w.loop = w.sleep P.tickInterval) : Slept P (tr ++ [a]) w := by
  intro _ wake hwake
  refine ⟨tr, a, [], ⟨rfl, ha, fun _ h => (by cases h), fun job hj => ?_, _, cadence_run h, ?_⟩⟩
  · refine ((taken_run h).settled job hj).resolve_left fun hp => ?_
    cases hl.symm.trans hp
  · rw [← clock_run h]
    exact (Loop.sleeping.inj (hl.symm.trans hwake)).symm

theorem slept_run {C : World κ ν F → Act κ ν F → Prop}
    (h : Run (Step P) C (.start radio powerMaxWatts) tr w) : Slept P tr w := by
  refine h.invariant (I := fun tr w => Slept P tr w) (fun h => by cases h) ?_
  intro tr s a s' hrun ih hC hs
  have hrun' := hrun.extend hs hC
  cases hs with
  | started | published | failed | notified => exact slept_of_sleep hrun' trivial rfl
  | returned | stopped => exact fun h => by cases h
  | asked => exact fun _ _ h => by cases h
  | worker hs ha => exact ih.more (fun h => h) rfl (ticker_of_worker hs ha) rfl
  | elapsed | listener | conn | shutdown | senderDropped => exact ih.more (fun h => h) rfl rfl rfl

/-! ### The rate -/

/-- Each poll has had its interval. -/
structure Rated (P : Setup κ F) (tr : List (Act κ ν F)) (w : World κ ν F) : Prop where
  polls : (asked tr).length * shortest P ≤ w.clock
  next : w.poller.ticker = .ticking → ∀ wake, w.loop = .sleeping wake →
    ((asked tr).length + 1) * shortest P ≤ wake

omit [DecidableEq κ] [DecidableEq ν] in
/-- A new sleep is long enough. -/
theorem Rated.sleep (h : Rated P tr w) (hq : a.asking = none) (hclock : w'.clock = w.clock)
    (hl : w'.loop = w'.sleep P.tickInterval)
    (hc : shortest P ≤ cadenceFor w'.listener.rig.health.tx.value P.tickInterval) :
    Rated P (tr ++ [a]) w' := by
  have hasked : asked (tr ++ [a]) = asked tr := by simp [hq]
  refine ⟨by rw [hasked, hclock]; exact h.polls, fun _ wake hwake => ?_⟩
  rw [hl, World.sleep, Loop.sleeping.injEq] at hwake
  rw [hasked, Nat.succ_mul, ← hwake, hclock]
  exact Nat.add_le_add h.polls hc

omit [DecidableEq κ] [DecidableEq ν] in
/-- An act that leaves the loop. -/
theorem Rated.more (h : Rated P tr w) (hq : a.asking = none) (hclock : w.clock ≤ w'.clock)
    (hloop : w'.poller.ticker = .ticking → w.poller.ticker = .ticking ∧ w'.loop = w.loop) :
    Rated P (tr ++ [a]) w' := by
  have hasked : asked (tr ++ [a]) = asked tr := by simp [hq]
  refine ⟨by rw [hasked]; exact Nat.le_trans h.polls hclock, fun ht wake hl => ?_⟩
  obtain ⟨ht', hl'⟩ := hloop ht
  rw [hasked]
  exact h.next ht' wake (hl' ▸ hl)

theorem rated_run {C : World κ ν F → Act κ ν F → Prop}
    (h : Run (Step P) C (.start radio powerMaxWatts) tr w) : Rated P tr w := by
  refine h.invariant (I := fun tr w => Rated P tr w) ⟨?_, fun h => by cases h⟩ ?_
  · rw [asked, List.filterMap_nil, List.length_nil, Nat.zero_mul]
    exact Nat.zero_le _
  intro tr s a s' hrun ih hC hs
  have hcad := (cadence_run (hrun.extend hs hC)).shortest_le
  cases hs with
  | started | published | failed | notified => exact ih.sleep rfl rfl rfl hcad
  | asked ht hl hwake hs =>
      have hlen : (asked (tr ++ [.asked ⟨s.listener.rig.requests, .poll⟩])).length =
          (asked tr).length + 1 := by simp [Act.asking]
      refine ⟨?_, fun _ _ h => by cases h⟩
      rw [hlen]
      exact Nat.le_trans (ih.next ht _ hl) hwake
  | returned | stopped => exact ih.more rfl (Nat.le_refl _) fun h => by cases h
  | elapsed time => exact ih.more rfl (Nat.le_add_right _ _) fun h => ⟨h, rfl⟩
  | worker hs ha =>
      exact ih.more rfl (Nat.le_refl _) fun h => ⟨(ticker_of_worker hs ha).symm.trans h, rfl⟩
  | listener | conn | shutdown | senderDropped =>
      exact ih.more rfl (Nat.le_refl _) fun h => ⟨h, rfl⟩

/-! ### The headline -/

/-- When the loop has polled, in the acts `tr`. -/
structure Paced (P : Setup κ F) (tr : List (Act κ ν F)) : Prop where
  /-- A poll comes after a sleep, which the act of the loop before it has started: by then all
  replies were taken, and it lasts for the cadence of what had happened to the rig. -/
  spaced : ∀ tr₁ job tr₂, tr = tr₁ ++ .asked job :: tr₂ →
    ∃ u a v, tr₁ = u ++ a :: v ∧ a.StartsSleep ∧ (∀ b ∈ v, ¬ b.OfLoop) ∧
      (∀ j ∈ asked tr₁, j ∈ (taken (u ++ [a])).map Prod.fst) ∧
      ∃ cadence, Cadence P (streak (toRig (u ++ [a]))) cadence ∧ cadence ≤ timeOf v
  rate : (asked tr).length * shortest P ≤ timeOf tr

/-- Three connects fail in the first tick interval and a half, and so the second poll comes after
the degraded one. -/
def outageActs : List (Act Unit Unit Nat) :=
  [.started, rigAct .connectFailed, .elapsed (nanosPerSec / 2), rigAct (.woke 500),
    rigAct .connectFailed, .elapsed nanosPerSec, rigAct (.woke 1000), rigAct .connectFailed,
    .asked pollJob, rigAct (.sent pollJob), rigAct (.drained pollJob),
    .failed pollJob .disconnected, .elapsed degradedInterval, .asked ⟨1, .poll⟩]

def outageEnd : World Unit Unit Nat where
  listener :=
    { rig :=
        { (((Rig.World.spawn : Rig.World Nat).failed .unreachable).failed .unreachable).failed
            .unreachable with
          requests := 2
          waiting := [⟨1, .poll⟩] }
      record := []
      replies := [(pollJob, .error .disconnected)]
      stage := fun _ => .arrived }
  poller :=
    { (Poller.World.start : Poller.World Nat) with
      ticker := .ticking
      worker := .spawned }
  ws := .start "IC-7300".toList 100
  loop := .polling ⟨1, .poll⟩
  clock := nanosPerSec / 2 + nanosPerSec + degradedInterval

theorem outage_run :
    Run (Step secondSetup) Always (.start "IC-7300".toList 100) outageActs outageEnd := by
  refine .cons trivial (.started rfl rfl) ?_
  refine .cons trivial (.of_rig (.connectFailed rfl) rfl trivial) ?_
  refine .cons trivial (.elapsed _) ?_
  refine .cons trivial (.of_rig (.woke rfl) rfl trivial) ?_
  refine .cons trivial (.of_rig (.connectFailed rfl) rfl trivial) ?_
  refine .cons trivial (.elapsed _) ?_
  refine .cons trivial (.of_rig (.woke rfl) rfl trivial) ?_
  refine .cons trivial (.of_rig (.connectFailed rfl) rfl trivial) ?_
  refine .cons trivial (.asked rfl rfl (by decide) (listen_of_rig (.requested .poll rfl) rfl)) ?_
  refine .cons trivial (.of_rig (.sent (l := []) rfl (by decide)) rfl trivial) ?_
  refine .cons trivial (.of_rig (.drained rfl rfl) rfl trivial) ?_
  refine .cons trivial (.failed rfl rfl (.head _)) ?_
  refine .cons trivial (.elapsed _) ?_
  exact .one trivial
    (.asked rfl rfl (by decide) (listen_of_rig (.requested .poll rfl) rfl))

end WavelogRelay.Relay
