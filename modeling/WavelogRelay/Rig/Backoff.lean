import WavelogRelay.Rig.Health

/-!
# Rig — the delays before a reconnect

`RigActor::run` counts its delays with `backoff_idx` and starts again from the first as soon as a
connect succeeds, before any command has completed.

* `Grows tr`: throughout a run, the delay slept after a failure is the one that the number of
  failures since the last completed command calls for (`schedule`).
* `Tallies`: what `backoff_idx` holds, as long as no connection is lost in the middle of a streak.
* `grows_iff`: the delays grow exactly in the runs in which an I/O error never ends a connection
  while a streak lasts, so that only failing connects make a streak longer.
* `not_grows`: two connections, each lost at its first command, are followed by the same delay.
-/

namespace WavelogRelay.Rig
open Library

/-- The delay after the failure number `n` of a streak, counted from 0: `BACKOFF`, and its last
entry from then on. -/
def schedule (n : Nat) : Nat := backoff.getD n 10000

theorem schedule_eq (n : Nat) : schedule n = backoffDelay n := by
  rcases n with _ | _ | _ | _ | n
  · rfl
  · rfl
  · rfl
  · rfl
  · have hlast : min (n + 4) (backoff.length - 1) = 4 := by simp [backoff]
    rw [backoffDelay, hlast, schedule]
    rcases n with _ | n <;> rfl

/-- The delays never decrease, and the first of them comes once. -/
theorem schedule_mono {m n : Nat} (h : m ≤ n) : schedule m ≤ schedule n := by
  have hle : ∀ k, schedule k ≤ schedule (k + 1) := fun k => by
    rcases k with _ | _ | _ | _ | _ | k
    · decide
    · decide
    · decide
    · decide
    · decide
    · exact Nat.le_refl 10000
  induction h with
  | refl => exact Nat.le_refl _
  | step _ ih => exact Nat.le_trans ih (hle _)

theorem schedule_eq_first_iff {n : Nat} : schedule n = 500 ↔ n = 0 := by
  constructor
  · intro h
    rcases n with _ | n
    · rfl
    · have hle : schedule 1 ≤ schedule (n + 1) := schedule_mono (Nat.le_add_left 1 n)
      rw [h] at hle
      exact absurd hle (by decide)
  · rintro rfl
    rfl

/-- The count saturates far past the end of the table. -/
theorem backoffDelay_min (n : Nat) : backoffDelay (min n 0xffffffffffffffff) = schedule n := by
  have hcut : min (min n 0xffffffffffffffff) (backoff.length - 1) =
      min n (backoff.length - 1) := by
    simp only [backoff, List.length_cons, List.length_nil]
    omega
  rw [schedule_eq, backoffDelay, hcut, backoffDelay]

variable {F : Type} {R : F32 F} {w w' : World F} {a : Act F}

/-! ### What the delays should be, and when they are not -/

/-- Throughout the run `tr`, the delay slept is the one for the failures since the last completed
command. -/
def Grows (R : F32 F) (tr : List (Act F)) : Prop :=
  ∀ tr₁ tr₂ w delay, tr = tr₁ ++ tr₂ → Run (Step R) Always .spawn tr₁ w →
    w.phase = .sleeping delay → delay = schedule ((streak tr₁).length - 1)

/-- No I/O error ends a connection while a streak lasts: since the last completed command no other
failure has come before it. -/
def LostFirst (tr : List (Act F)) : Prop :=
  ∀ tr₁ conn job e tr₂, tr = tr₁ ++ .lost conn job e :: tr₂ → streak tr₁ = []

/-- What the actor's counter and its delay are, after `n` failures. -/
def Tallies (n : Nat) (w : World F) : Prop :=
  match w.phase with
  | .connecting => w.backoffIdx = min n 0xffffffffffffffff
  | .sleeping delay =>
      w.backoffIdx = min n 0xffffffffffffffff ∧ 0 < n ∧ delay = schedule (n - 1)
  | .serving _ | .running .. => w.backoffIdx = 0
  | .stopped => True

theorem Tallies.of_phase {n : Nat} (h : Tallies n w) (hp : w'.phase = w.phase)
    (hb : w'.backoffIdx = w.backoffIdx) : Tallies n w' := by
  unfold Tallies at h ⊢
  rw [hp, hb]
  exact h

/-- One more failure, when the counter counts those before it. -/
theorem Tallies.failed {n : Nat} (h : w.backoffIdx = min n 0xffffffffffffffff)
    (kind : DegradedKind) : Tallies (n + 1) (w.failed kind) := by
  refine ⟨?_, Nat.succ_pos n, ?_⟩
  · change satSucc 0xffffffffffffffff w.backoffIdx = min (n + 1) 0xffffffffffffffff
    rw [h, satSucc_min]
  · rw [h, backoffDelay_min, Nat.add_sub_cancel]

/-- **A step keeps the count**, unless it loses a connection in the middle of a streak. -/
theorem Tallies.step {tr : List (Act F)} (h : Tallies (streak tr).length w) (hs : Step R w a w')
    (hl : ∀ conn job e, a = .lost conn job e → streak tr = []) :
    Tallies (streak (tr ++ [a])).length w' := by
  rw [streak_snoc]
  cases hs with
  | requested | abandoned | sent | handlesDropped | drained => exact h.of_phase rfl rfl
  | connected => rfl
  | connectFailed hp =>
      rw [Tallies, hp] at h
      exact Tallies.failed h .unreachable
  | received hp | wire hp | served hp =>
      rw [Tallies, hp] at h
      exact h
  | lost hp =>
      rw [Tallies, hp] at h
      have hnone := hl _ _ _ rfl
      simp only [Act.healthEvent, hnone]
      exact Tallies.failed h .unresponsive
  | woke hp =>
      rw [Tallies, hp] at h
      exact h.1
  | stoppedServing | stoppedSleeping => trivial

theorem LostFirst.of_append {tr₁ tr₂ : List (Act F)} (h : LostFirst (tr₁ ++ tr₂)) :
    LostFirst tr₁ := by
  rintro tr conn job e tr₃ rfl
  exact h tr conn job e (tr₃ ++ tr₂) (by simp)

theorem Tallies.run {tr : List (Act F)} (h : Run (Step R) Always .spawn tr w)
    (hl : LostFirst tr) : Tallies (streak tr).length w := by
  refine h.invariant (I := fun tr w => LostFirst tr → Tallies (streak tr).length w) ?_ ?_ hl
  · exact fun _ => rfl
  · rintro tr w a w' - ih - hs hl
    refine (ih hl.of_append).step hs ?_
    rintro conn job e rfl
    exact hl tr conn job e [] rfl

/-- While it serves, the counter is at its start. -/
def Rewound (w : World F) : Prop :=
  match w.phase with
  | .serving _ | .running .. => w.backoffIdx = 0
  | _ => True

theorem Rewound.step (h : Rewound w) (hs : Step R w a w') : Rewound w' := by
  cases hs with
  | requested | abandoned | sent | handlesDropped => exact h
  | connected => rfl
  | received hp | wire hp | served hp =>
      rw [Rewound, hp] at h
      exact h
  | drained hp =>
      rw [Rewound]
      simp only [hp]
  | connectFailed | lost | woke | stoppedServing | stoppedSleeping => trivial

theorem Rewound.run {tr : List (Act F)} (h : Run (Step R) Always .spawn tr w) : Rewound w := by
  refine h.invariant (I := fun _ w => Rewound w) ?_ ?_
  · exact True.intro
  · rintro tr w a w' - ih - hs
    exact ih.step hs

/-- **When the delays grow.**  Throughout a run, the delays after the failures of each streak are
500 ms, 1 s, 2 s, 5 s, 10 s and then 10 s for ever, exactly when no I/O error ends a connection
while a streak lasts. -/
theorem grows_iff {tr : List (Act F)} (h : Run (Step R) Always .spawn tr w) :
    Grows R tr ↔ LostFirst tr := by
  constructor
  · rintro hg tr₁ conn job e tr₂ rfl
    obtain ⟨m, m', h₁, -, hs, -⟩ := h.step_at
    have hrun := h₁.extend hs trivial
    have hstreak : streak (tr₁ ++ [.lost conn job e]) = .unresponsive :: streak tr₁ :=
      streak_snoc tr₁ _
    cases hs with
    | lost hp =>
        have hrewound := Rewound.run h₁
        rw [Rewound, hp] at hrewound
        have hdelay := hg (tr₁ ++ [.lost conn job e]) tr₂ _ _ (by simp) hrun rfl
        rw [hrewound, hstreak, List.length_cons, Nat.add_sub_cancel] at hdelay
        exact List.eq_nil_of_length_eq_zero (schedule_eq_first_iff.mp hdelay.symm)
  · rintro hl tr₁ tr₂ w₁ delay rfl h₁ hp
    have htally := Tallies.run h₁ hl.of_append
    rw [Tallies, hp] at htally
    exact htally.2.2

/-- Connects that are refused. -/
theorem grows_while_refused :
    Grows wholePower [.connectFailed, .woke 500, .connectFailed, .woke 1000, .connectFailed] := by
  have hrun : Run (Step wholePower) Always .spawn [] .spawn := .nil
  have hrun₁ := (hrun.extend (.connectFailed rfl) trivial).extend (.woke rfl) trivial
  have hrun₂ := (hrun₁.extend (.connectFailed rfl) trivial).extend (.woke rfl) trivial
  have hrun₃ := hrun₂.extend (.connectFailed rfl) trivial
  refine (grows_iff hrun₃).mpr ?_
  intro tr₁ conn job e tr₂ h
  have hmem : Act.lost conn job e ∈ tr₁ ++ .lost conn job e :: tr₂ := by simp
  rw [← h] at hmem
  simp at hmem

/-! ### The defect -/

/-- A command whose line cannot be sent, on a connection just made. -/
theorem lost_at_once {tr : List (Act F)} (h : Run (Step R) Always .spawn tr w)
    (hp : w.phase = .connecting) (hh : w.handles = true) (hw : w.waiting = [])
    (hc : w.chan = []) :
    ∃ tr' w', Run (Step R) Always .spawn tr' w' ∧ w'.phase = .sleeping 500 ∧
      w'.handles = true ∧ w'.waiting = [] ∧ w'.chan = [] ∧
      streak tr' = .unresponsive :: streak tr := by
  have hchan : w.chan ++ [⟨w.requests, .getFreq⟩] = [⟨w.requests, .getFreq⟩] := by
    rw [hc]
    rfl
  have h₁ := h.extend (.requested .getFreq hh) trivial
  have h₂ := h₁.extend (.connected hp) trivial
  have hroom : w.chan.length < channelCapacity := by simp [hc, channelCapacity]
  have h₃ := h₂.extend (.sent (l := w.waiting) (r := []) rfl hroom) trivial
  have h₄ := h₃.extend (.received rfl hchan) trivial
  have h₅ := h₄.extend (.wire (q := .send _) rfl (.error .other)) trivial
  have h₆ := h₅.extend (.lost rfl) trivial
  refine ⟨_, _, h₆, rfl, hh, by simp [World.failed, hw], rfl, ?_⟩
  simp only [streak_snoc, Act.healthEvent]

/-- **The delays do not always grow**: two connections, each lost at its first command, are both
followed by the first delay. -/
theorem not_grows : ¬ ∀ (tr : List (Act Nat)) (w : World Nat),
    Run (Step wholePower) Always .spawn tr w → Grows wholePower tr := by
  intro hall
  have hnil : Run (Step wholePower) Always .spawn [] .spawn := .nil
  obtain ⟨tr₁, w₁, h₁, hp, hh, hw, hc, hs₁⟩ := lost_at_once hnil rfl rfl rfl rfl
  have hwoken := h₁.extend (.woke hp) trivial
  obtain ⟨tr₂, w₂, h₂, hp₂, -, -, -, hs₂⟩ := lost_at_once hwoken rfl hh hw hc
  have hdelay := hall tr₂ w₂ h₂ tr₂ [] w₂ 500 (by simp) h₂ hp₂
  have hlength : (streak tr₂).length = 2 := by
    rw [hs₂, streak_snoc, hs₁]
    rfl
  rw [hlength] at hdelay
  exact absurd hdelay (by decide)

end WavelogRelay.Rig
