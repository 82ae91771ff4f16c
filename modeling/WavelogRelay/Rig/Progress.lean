import WavelogRelay.Rig.Actor

/-!
# Rig — every request is answered

From any state, once no more requests are made and no sleep ends while a request is pending, the
clients and the actor go on until every request is answered, whatever the network does, and in a
bounded number of steps.

* `handleCommand_within`: a command asks at most seven questions.
* `Bound.step`: what is left to do decreases.
* `Live.exists_prompt`: something can be done as long as a request is pending.
* `Live.settles`: the two together, over runs.
-/

namespace WavelogRelay.Rig
open Library Dialogue

variable {F : Type}

/-! ### The length of a command -/

theorem send_within {line : Text} : Within 1 (send line) := .ask fun _ => .done

theorem readLine_within : Within 1 readLine := by
  refine .ask fun a => ?_
  rcases a with e | raw
  · exact .done
  · by_cases hraw : raw = []
    · subst hraw
      exact .done
    · change Within 0 (if raw = [] then _ else _)
      rw [if_neg hraw]
      exact .done

theorem execGetFreq_within : Within 2 execGetFreq := by
  refine send_within.bind fun _ => readLine_within.bind fun line => ?_
  split
  · exact .done
  · split <;> exact .done

theorem execGetMode_within : Within 3 execGetMode := by
  refine send_within.bind fun _ => readLine_within.bind fun line => ?_
  split
  · exact .done
  · dsimp only
    split
    · exact readLine_within.attempt.bind fun _ => .done
    · exact readLine_within.bind fun _ => .done

theorem execGetPower_within {R : F32 F} : Within 2 (execGetPower R) := by
  refine send_within.bind fun _ => readLine_within.bind fun line => ?_
  split
  · exact .done
  · split
    · exact .done
    · split <;> exact .done

theorem execPoll_within {R : F32 F} : Within 7 (execPoll R) := by
  refine execGetFreq_within.bind fun freq => ?_
  split
  · exact .done
  · refine execGetMode_within.bind fun mode => ?_
    split
    · exact .done
    · refine execGetPower_within.bind fun power => ?_
      split <;> exact .done

theorem set_within {line : Text} :
    Within 2 (send line >>= fun _ => readLine >>= fun answer => pure (parseSetResponse answer)) :=
  send_within.bind fun _ => readLine_within.bind fun _ => .done

theorem execSetFreqMode_within {hz : UInt64} {mode : HamlibMode} :
    Within 4 (execSetFreqMode hz mode) := by
  refine send_within.bind fun _ => readLine_within.bind fun line => ?_
  split
  · exact .done
  · exact set_within

/-- A command asks at most seven questions. -/
theorem handleCommand_within (R : F32 F) (cmd : RigCommand) : Within 7 (handleCommand R cmd) := by
  have reply {α : Type} {n : Nat} {p : Wire (Except RigError α)} (f : α → Reply F)
      (h : Within n p) (hn : n ≤ 7) : Within 7 (p >>= fun r => pure (r.map f)) :=
    (h.bind fun _ => .done (n := 0)).mono (by omega)
  cases cmd with
  | getFreq => exact reply _ execGetFreq_within (by decide)
  | getMode => exact reply _ execGetMode_within (by decide)
  | getPower => exact reply _ execGetPower_within (by decide)
  | poll => exact reply _ execPoll_within (by decide)
  | setFreq hz => exact reply _ set_within (by decide)
  | setMode mode => exact reply _ set_within (by decide)
  | setFreqMode hz mode => exact reply _ execSetFreqMode_within (by decide)

/-! ### What is left to do -/

/-- No new request is made, and no sleep ends while a request is pending. -/
def Prompt (w : World F) : Act F → Prop
  | .requested _ | .handlesDropped => False
  | .woke _ => w.pending = []
  | _ => True

/-- At most `n` more steps of the actor before it receives or drains. -/
inductive PhaseBound : Nat → Phase F → Prop where
  | connecting : PhaseBound 2 .connecting
  | serving {conn : Nat} : PhaseBound 1 (.serving conn)
  | running {n conn : Nat} {job : Job} {rest : Wire (Except RigError (Reply F))}
      (h : Within n rest) : PhaseBound (n + 2) (.running conn job rest)
  | sleeping {delay : Nat} : PhaseBound 1 (.sleeping delay)
  | stopped : PhaseBound 0 .stopped

/-- At most `n` more prompt steps as long as a request is pending. -/
def Bound (n : Nat) (w : World F) : Prop :=
  ∃ d, PhaseBound d w.phase ∧ 11 * w.waiting.length + 10 * w.chan.length + d ≤ n

variable {R : F32 F} {w w' : World F} {a : Act F}

theorem Bound.step {n : Nat} (h : Bound n w) (hs : Step R w a w') (ha : Prompt w a)
    (hp : w.pending ≠ []) : ∃ m, m < n ∧ Bound m w' := by
  obtain ⟨d, hd, hn⟩ := h
  cases hs with
  | requested | handlesDropped => exact ha.elim
  | abandoned hw =>
      rw [hw, List.length_append, List.length_cons] at hn
      exact ⟨n - 11, by omega, d, hd, by simp; omega⟩
  | sent hw hroom =>
      rw [hw, List.length_append, List.length_cons] at hn
      exact ⟨n - 1, by omega, d, hd, by simp; omega⟩
  | connected hph =>
      rw [hph] at hd
      cases hd
      exact ⟨n - 1, by omega, 1, .serving, by simp; omega⟩
  | connectFailed hph =>
      rw [hph] at hd
      cases hd
      exact ⟨n - 1, by omega, 1, .sleeping, by simp [World.failed]; omega⟩
  | received hph hchan =>
      rw [hph] at hd
      cases hd
      rw [hchan, List.length_cons] at hn
      exact ⟨n - 2, by omega, 9, .running (handleCommand_within R _), by simp; omega⟩
  | wire hph a =>
      rw [hph] at hd
      cases hd with
      | running h =>
          cases h with
          | @ask m _ _ h => exact ⟨n - 1, by omega, m + 2, .running (h a), by simp; omega⟩
  | served hph =>
      rw [hph] at hd
      cases hd
      exact ⟨n - 1, by omega, 1, .serving, by simp; omega⟩
  | lost hph =>
      rw [hph] at hd
      cases hd
      exact ⟨n - 1, by omega, 1, .sleeping, by simp [World.failed]; omega⟩
  | drained hph hchan =>
      rw [hchan, List.length_cons] at hn
      exact ⟨n - 10, by omega, d, hd, by simp; omega⟩
  | woke => exact absurd ha hp
  | stoppedServing hph | stoppedSleeping hph =>
      rw [hph] at hd
      cases hd
      exact ⟨n - 1, by omega, 0, .stopped, by simp; omega⟩

@[simp] theorem pending_eq_nil : w.pending = [] ↔
    w.waiting = [] ∧ w.chan = [] ∧ w.phase.jobs = [] := by
  simp [World.pending]

/-- Only a new request makes a request pending. -/
theorem Step.pending_nil (hs : Step R w a w') (ha : Prompt w a) (hp : w.pending = []) :
    w'.pending = [] := by
  obtain ⟨hw, hc, hj⟩ := pending_eq_nil.mp hp
  cases hs with
  | requested | handlesDropped => exact ha.elim
  | abandoned h | sent h => simp [h] at hw
  | received _ h | drained _ h => simp [h] at hc
  | wire h | served h | lost h => simp [h, Phase.jobs] at hj
  | connected | connectFailed | woke => exact pending_eq_nil.mpr ⟨hw, hc, rfl⟩
  | stoppedServing | stoppedSleeping => exact pending_eq_nil.mpr ⟨hw, hc, rfl⟩

theorem Bound.run {n : Nat} {tr : List (Act F)} (h : Bound n w) (hr : Run (Step R) Prompt w tr w')
    (hp : w'.pending ≠ []) : ∃ m, m + tr.length ≤ n ∧ Bound m w' := by
  induction hr with
  | nil => exact ⟨n, Nat.le_refl n, h⟩
  | @snoc tr s s' a hr ha hs ih =>
      have hp' : s.pending ≠ [] := fun hnil => hp (hs.pending_nil ha hnil)
      obtain ⟨m, hm, hb⟩ := ih hp'
      obtain ⟨m', hlt, hb'⟩ := hb.step hs ha hp'
      exact ⟨m', by simp; omega, hb'⟩

/-! ### Something can be done -/

/-- Without handles no request waits, and the actor stops only then, with nothing in the
channel. -/
structure Live (w : World F) : Prop where
  dropped : w.handles = false → w.waiting = []
  stopped : w.phase = .stopped → w.handles = false ∧ w.chan = []
  within : ∃ d, PhaseBound d w.phase

theorem Live.spawn : Live (.spawn : World F) :=
  ⟨fun _ => rfl, (fun h => by cases h), 2, .connecting⟩

theorem Live.step (h : Live w) (hs : Step R w a w') : Live w' := by
  obtain ⟨hd, hst, d, hb⟩ := h
  cases hs with
  | requested cmd hh =>
      refine ⟨fun h => ?_, fun h => ?_, d, hb⟩
      · cases hh.symm.trans h
      · cases hh.symm.trans (hst h).1
  | abandoned hw => exact ⟨fun h => by simpa [hw] using hd h, hst, d, hb⟩
  | sent hw =>
      have hne : w.waiting ≠ [] := by simp [hw]
      exact ⟨fun h => absurd (hd h) hne, fun h => absurd (hd (hst h).1) hne, d, hb⟩
  | handlesDropped hh hw => exact ⟨fun _ => hw, fun h => ⟨rfl, (hst h).2⟩, d, hb⟩
  | received hph hchan => exact ⟨hd, (fun h => by cases h), 9, .running (handleCommand_within R _)⟩
  | drained hph hchan => exact ⟨hd, (fun h => by cases hph.symm.trans h), d, hb⟩
  | wire hph =>
      rw [hph] at hb
      cases hb with
      | running h =>
          cases h with
          | ask h => exact ⟨hd, (fun h => by cases h), _, .running (h _)⟩
  | connected | served => exact ⟨hd, (fun h => by cases h), 1, .serving⟩
  | connectFailed | lost => exact ⟨hd, (fun h => by cases h), 1, .sleeping⟩
  | woke => exact ⟨hd, (fun h => by cases h), 2, .connecting⟩
  | stoppedServing _ hchan hh | stoppedSleeping _ hchan hh =>
      exact ⟨hd, fun _ => ⟨hh, hchan⟩, 0, .stopped⟩

/-- A request that waits is sent when there is room. -/
theorem exists_sent (R : F32 F) (hc : w.chan = []) (hw : w.waiting ≠ []) :
    ∃ a w', Step R w a w' ∧ Prompt w a := by
  obtain ⟨job, rest, hw⟩ := List.exists_cons_of_ne_nil hw
  exact ⟨_, _, .sent (l := []) hw (by simp [hc, channelCapacity]), trivial⟩

theorem Live.exists_prompt (h : Live w) (R : F32 F) (hp : w.pending ≠ []) :
    ∃ a w', Step R w a w' ∧ Prompt w a := by
  have hor : w.phase.jobs = [] → w.chan = [] → w.waiting ≠ [] := fun hj hc hw =>
    hp (pending_eq_nil.mpr ⟨hw, hc, hj⟩)
  cases hph : w.phase with
  | connecting => exact ⟨_, _, .connectFailed hph, trivial⟩
  | serving conn =>
      cases hc : w.chan with
      | nil => exact exists_sent R hc (hor (by rw [hph]; rfl) hc)
      | cons job rest => exact ⟨_, _, .received hph hc, trivial⟩
  | running conn job rest =>
      cases rest with
      | ask q k =>
          cases q with
          | send line => exact ⟨_, _, .wire hph (.error .other), trivial⟩
          | readLine => exact ⟨_, _, .wire hph (.error .timedOut), trivial⟩
      | done res =>
          cases res with
          | ok res => exact ⟨_, _, .served hph, trivial⟩
          | error e => exact ⟨_, _, .lost hph, trivial⟩
  | sleeping delay =>
      cases hc : w.chan with
      | nil => exact exists_sent R hc (hor (by rw [hph]; rfl) hc)
      | cons job rest => exact ⟨_, _, .drained hph hc, trivial⟩
  | stopped =>
      obtain ⟨hh, hc⟩ := h.stopped hph
      exact absurd (h.dropped hh) (hor (by rw [hph]; rfl) hc)

/-- **Every pending request is answered** within a bounded number of prompt steps: as long as one
is pending there is such a step. -/
theorem Live.settles (h : Live w) (R : F32 F) :
    ∃ n, ∀ tr w', Run (Step R) Prompt w tr w' → w'.pending ≠ [] →
      tr.length ≤ n ∧ ∃ a w'', Step R w' a w'' ∧ Prompt w' a := by
  obtain ⟨d, hd⟩ := h.within
  refine ⟨11 * w.waiting.length + 10 * w.chan.length + d, fun tr w' hr hp => ?_⟩
  have hlive : Live w' := hr.invariant (I := fun _ w => Live w) h fun _ h _ hs => h.step hs
  have hbound : Bound (11 * w.waiting.length + 10 * w.chan.length + d) w :=
    ⟨d, hd, Nat.le_refl _⟩
  obtain ⟨m, hm, -⟩ := hbound.run hr hp
  exact ⟨Nat.le_trans (Nat.le_add_left _ _) hm, hlive.exists_prompt R hp⟩

end WavelogRelay.Rig
