import WavelogRelay.Poller.Unasked

/-!
# Poller — why a snapshot is pushed

The reasons to push a snapshot, given the last one that was pushed with success, and what the worker
does by them, whatever comes on the shutdown channel.

* `Recorded.step`: the deduper holds the last success, also when pushes are dropped.
* `pushed_for_a_reason`: a snapshot is pushed exactly if there is a reason to, which is the kind of
  the push, and is evaluated once.
-/

namespace WavelogRelay.Poller
open Library Rig Wavelog

variable {F : Type}

/-- A reason to push `s` after the last success. -/
inductive Reason (R : F32 F) (s : Snapshot F) : Option (Snapshot F) → PushKind → Prop where
  | initial : Reason R s none .initial
  | change {p : Snapshot F} (h : p.state.freq ≠ s.state.freq ∨ p.state.mode ≠ s.state.mode) :
      Reason R s (some p) .change
  | power {p : Snapshot F} (hfreq : p.state.freq = s.state.freq)
      (hmode : p.state.mode = s.state.mode)
      (h : p.state.power.map (quantizeRfpower R) ≠ s.state.power.map (quantizeRfpower R)) :
      Reason R s (some p) .power
  | heartbeat {p : Snapshot F} (hbin : SameBin R p.state s.state)
      (h : heartbeatInterval ≤ s.now - p.now) : Reason R s (some p) .heartbeat

variable {R : F32 F} {s : Snapshot F} {last : Option (Snapshot F)} {kind kind' : PushKind}

/-- There is one reason at most. -/
theorem Reason.unique (h : Reason R s last kind) (h' : Reason R s last kind') : kind = kind' := by
  cases h with
  | initial => cases h'; rfl
  | change hc =>
      cases h' with
      | change => rfl
      | power hf hm => exact absurd hc (not_or.mpr ⟨fun h => h hf, fun h => h hm⟩)
      | heartbeat hbin => exact absurd hc (not_or.mpr ⟨fun h => h hbin.1, fun h => h hbin.2.1⟩)
  | power hf hm hp =>
      cases h' with
      | change hc => exact absurd hc (not_or.mpr ⟨fun h => h hf, fun h => h hm⟩)
      | power => rfl
      | heartbeat hbin => exact absurd hbin.2.2 hp
  | heartbeat hbin =>
      cases h' with
      | change hc => exact absurd hc (not_or.mpr ⟨fun h => h hbin.1, fun h => h hbin.2.1⟩)
      | power _ _ hp => exact absurd hbin.2.2 hp
      | heartbeat => rfl

/-- The deduper that has recorded a snapshot. -/
def recorded (R : F32 F) (last : Option (Snapshot F)) : Deduper :=
  .after R (last.map fun p => (p.state, p.now))

/-- **There is no reason** exactly for what the deduper skips. -/
theorem shouldSkip_iff_no_reason :
    (recorded R last).shouldSkip R s.state s.now = true ↔ ∀ kind, ¬ Reason R s last kind := by
  rw [recorded, shouldSkip_after]
  cases last with
  | none =>
      refine iff_of_false ?_ fun h => h _ .initial
      rintro ⟨_, _, h, -⟩
      cases h
  | some p =>
      constructor
      · rintro ⟨_, _, h, hbin, hlt⟩ kind hr
        cases h
        cases hr with
        | change hc => exact hc.elim (fun h => h hbin.1) fun h => h hbin.2.1
        | power _ _ hp => exact hp hbin.2.2
        | heartbeat _ hle => exact Nat.not_lt.mpr hle hlt
      · intro h
        have hfreq : p.state.freq = s.state.freq :=
          Classical.not_not.mp fun hne => h _ (.change (.inl hne))
        have hmode : p.state.mode = s.state.mode :=
          Classical.not_not.mp fun hne => h _ (.change (.inr hne))
        have hpower := Classical.not_not.mp fun hne => h _ (.power hfreq hmode hne)
        have hbin : SameBin R p.state s.state := ⟨hfreq, hmode, hpower⟩
        exact ⟨p.state, p.now, rfl, hbin, Nat.not_le.mp fun hle => h _ (.heartbeat hbin hle)⟩

/-- What `classify` says of a snapshot that is not skipped is the reason. -/
theorem reason_classify (h : (recorded R last).shouldSkip R s.state s.now = false) :
    Reason R s last ((recorded R last).classify R s.state) := by
  obtain ⟨kind, hr⟩ : ∃ kind, Reason R s last kind := by
    by_contra hno
    rw [shouldSkip_iff_no_reason.mpr fun kind hr => hno ⟨kind, hr⟩] at h
    cases h
  suffices hk : (recorded R last).classify R s.state = kind from hk ▸ hr
  cases hr with
  | initial => rfl
  | change hc => exact if_pos (by simpa [keyOf] using hc)
  | power hf hm hp => simp [recorded, Deduper.after, Deduper.classify, keyOf, hf, hm, hp]
  | heartbeat hbin =>
      obtain ⟨hf, hm, hp⟩ := hbin
      simp [recorded, Deduper.after, Deduper.classify, keyOf, hf, hm, hp]

/-! ### Runs -/

/-- The push that ends, with an outcome or without. -/
def Act.endedPush : Act F → Option (Snapshot F)
  | .pushed s _ _ | .cancelled s _ => some s
  | _ => none

def endedPushes (tr : List (Act F)) : List (Snapshot F) := tr.filterMap Act.endedPush

@[simp] theorem endedPushes_snoc (tr : List (Act F)) (a : Act F) :
    endedPushes (tr ++ [a]) = endedPushes tr ++ a.endedPush.toList := filterMap_snoc _ _ _

variable {w w' : World F} {a : Act F} {tr : List (Act F)}

/-- What the worker evaluates was published, whatever comes on the shutdown channel. -/
theorem Seen.any_step (h : Seen tr w) (hs : Step R w a w') : Seen (tr ++ [a]) w' := by
  cases hs with
  | published state => exact h.publish state
  | skipped hw hc hv => exact h.evaluate hc hv rfl rfl
  | started hw hc hv => exact h.evaluate hc hv rfl rfl
  | emptied hw hc hv =>
      -- nothing has been published, so there is nothing to see
      have hne : w.states.version ≠ w.statesSeen := (Watch.changed_spec hc).2.2 rfl
      have hnil : published tr = [] := List.getLast?_eq_none_iff.mp (h.value ▸ hv)
      have hzero : w.states.version = 0 := by rw [h.version, hnil, List.length_nil]
      have := h.seen
      omega
  | tickerNotified => split <;> exact h.other rfl rfl ⟨rfl, rfl⟩ rfl
  | _ => exact h.other rfl rfl ⟨rfl, rfl⟩ rfl

/-- The deduper holds the last success, and a push that is started is ended or in progress. -/
structure Recorded (R : F32 F) (tr : List (Act F)) (w : World F) : Prop where
  unspawned : w.ticker = .spawned → w.worker = .unspawned
  deduper : w.deduper = recorded R (lastSuccess tr)
  pushes : startedPushes tr = endedPushes tr ++ w.worker.inPush

theorem Recorded.start : Recorded R [] (.start : World F) := ⟨fun _ => rfl, rfl, rfl⟩

theorem lastSuccess_other (ha : a.success = none) : lastSuccess (tr ++ [a]) = lastSuccess tr := by
  simp [lastSuccess, ha]

/-- An act that starts no push and ends none. -/
theorem Recorded.other (h : Recorded R tr w) (hs : a.success = none) (hst : a.startedPush = none)
    (he : a.endedPush = none) (hd : w'.deduper = w.deduper)
    (hw : w'.worker.inPush = w.worker.inPush)
    (hsp : w'.ticker = .spawned → w'.worker = .unspawned) : Recorded R (tr ++ [a]) w' := by
  refine ⟨hsp, by rw [lastSuccess_other hs, hd, h.deduper], ?_⟩
  rw [startedPushes_snoc, endedPushes_snoc, hst, he, hw]
  simpa using h.pushes

theorem Recorded.step (h : Recorded R tr w) (hs : Step R w a w') : Recorded R (tr ++ [a]) w' := by
  have hsp := h.unspawned
  -- a worker that takes a step has been spawned
  have hspawned (hne : w.worker ≠ .unspawned) : w.ticker ≠ .spawned := fun ht => hne (hsp ht)
  cases hs with
  | runStarts ht =>
      refine h.other rfl rfl rfl rfl ?_ fun h => by cases h
      rw [hsp ht]
      rfl
  | runReturns ht => exact h.other rfl rfl rfl rfl rfl fun h => by cases h
  | tickerNotified ht hc =>
      split
      · exact h.other rfl rfl rfl rfl rfl fun h => by cases h
      · exact h.other rfl rfl rfl rfl rfl hsp
  | published | pollFailed | shutdown | senderDropped => exact h.other rfl rfl rfl rfl rfl hsp
  | workerReturns hw | workerStarts hw | statesClosed hw =>
      refine h.other rfl rfl rfl rfl (by rw [hw]; rfl) fun ht => absurd ht (hspawned (by simp [hw]))
  | emptied hw | skipped hw => exact h.other rfl rfl rfl rfl rfl hsp
  | workerNotified hw =>
      refine h.other rfl rfl rfl rfl ?_ fun ht => absurd ht (hspawned (by simp [hw]))
      rw [hw]
      split <;> rfl
  | started hw =>
      refine ⟨fun ht => absurd ht (hspawned (by simp [hw])), h.deduper.trans ?_, ?_⟩
      · rw [lastSuccess_other rfl]
      · simpa [hw, Act.endedPush, Worker.inPush] using h.pushes
  | @pushed s kind attempts res hw =>
      refine ⟨fun ht => absurd ht (hspawned (by simp [hw])), ?_, ?_⟩
      · cases res with
        | ok u =>
            simp [lastSuccess, Act.success, afterPush, recorded, Deduper.after, Deduper.record]
        | error e => exact h.deduper.trans (by rw [lastSuccess_other rfl])
      · simpa [hw, Act.endedPush, Worker.inPush] using h.pushes
  | cancelled hw =>
      refine ⟨fun ht => absurd ht (hspawned (by simp [hw])), ?_, ?_⟩
      · exact h.deduper.trans (by rw [lastSuccess_other rfl])
      · have hp := h.pushes
        rw [hw] at hp
        rw [startedPushes_snoc, endedPushes_snoc]
        split <;> simpa [Act.endedPush, Worker.inPush] using hp

/-- What the worker does with the snapshots that it evaluates. -/
structure Reasoned (R : F32 F) (tr : List (Act F)) (w : World F) : Prop where
  /-- The kind of a push is the reason for it. -/
  started : ∀ tr₁ s kind tr₂, tr = tr₁ ++ .started s kind :: tr₂ →
    Reason R s (lastSuccess tr₁) kind
  /-- For what is skipped there is none. -/
  skipped : ∀ tr₁ s tr₂, tr = tr₁ ++ .skipped s :: tr₂ → ∀ kind, ¬ Reason R s (lastSuccess tr₁) kind
  /-- No snapshot is evaluated twice, and none after a later one. -/
  once : (evaluated tr).Pairwise fun s t => s.version < t.version
  /-- Each push is carried to an outcome or dropped, before the next one starts. -/
  ended : startedPushes tr = endedPushes tr ++ w.worker.inPush

/-- **A snapshot is pushed exactly for a reason**, in every run, with any updates of the shutdown
channel. -/
theorem pushed_for_a_reason (h : Run (Step R) Always .start tr w) : Reasoned R tr w := by
  have hrec {tr : List (Act F)} {w : World F} (h : Run (Step R) Always .start tr w) :
      Recorded R tr w := h.invariant .start fun _ h _ hs => h.step hs
  have hseen : Seen tr w := h.invariant .start fun _ h _ hs => h.any_step hs
  refine ⟨?_, ?_, hseen.order, (hrec h).pushes⟩
  · rintro tr₁ s kind tr₂ rfl
    obtain ⟨m, m', hr, -, hs, -⟩ := h.step_at
    cases hs with
    | started hw hc hv hnow hskip =>
        rw [(hrec hr).deduper] at hskip ⊢
        exact reason_classify (s := m.snapshot _ _) hskip
  · rintro tr₁ s tr₂ rfl
    obtain ⟨m, m', hr, -, hs, -⟩ := h.step_at
    cases hs with
    | skipped hw hc hv hnow hskip =>
        rw [(hrec hr).deduper] at hskip
        exact shouldSkip_iff_no_reason.mp hskip

/-- A push that is dropped is no success: the next one is still the initial one. -/
def droppedActs : List (Act Nat) :=
  [.ticker, .worker, .published usbState, .started ⟨1, usbState, 0⟩ .initial, .shutdown false,
    .cancelled ⟨1, usbState, 0⟩ [], .published usbState, .started ⟨2, usbState, 1000⟩ .initial]

def droppedEnd : World Nat :=
  { (World.start : World Nat) with
    shutdown := ⟨false, 1, false⟩
    states := ⟨some usbState, 2, false⟩
    ticker := .ticking
    worker := .pushing ⟨2, usbState, 1000⟩ .initial
    workerSeen := 1
    statesSeen := 2
    clock := 1000 }

theorem dropped_pushed_for_a_reason : Reasoned wholePower droppedActs droppedEnd := by
  refine pushed_for_a_reason ?_
  refine .cons trivial (.runStarts rfl rfl) ?_
  refine .cons trivial (.workerStarts rfl rfl) ?_
  refine .cons trivial (.published _ rfl) ?_
  refine .cons trivial (.started rfl rfl rfl (Nat.le_refl 0) rfl) ?_
  refine .cons trivial (.shutdown false) ?_
  refine .cons trivial (.cancelled rfl ⟨Nat.zero_le _, fun _ hx => (by cases hx)⟩ rfl) ?_
  refine .cons trivial (.published _ rfl) ?_
  exact .cons trivial (.started rfl rfl rfl (Nat.zero_le 1000) rfl) .nil

end WavelogRelay.Poller
