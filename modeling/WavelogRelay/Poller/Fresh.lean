import WavelogRelay.Library.Since
import WavelogRelay.Poller.Worker

/-!
# Poller — the worker never settles on a stale state

What the worker evaluates, skips and pushes in a run without notifications on the shutdown channel.

* `Fresh.step`: what each step keeps of what the worker has seen, evaluated and pushed.
* `never_stale`: the headline.
-/

namespace WavelogRelay.Poller
open Library Rig Wavelog

variable {F : Type}

/-! ### What has happened -/

def Act.publication : Act F → Option (RigState F)
  | .published state => some state
  | _ => none

def Act.evaluation : Act F → Option (Snapshot F)
  | .skipped s | .started s _ => some s
  | _ => none

def Act.success : Act F → Option (Snapshot F)
  | .pushed s _ (.ok ()) => some s
  | _ => none

section History

variable (tr : List (Act F))

def published : List (RigState F) := tr.filterMap Act.publication

def evaluated : List (Snapshot F) := tr.filterMap Act.evaluation

def successes : List (Snapshot F) := tr.filterMap Act.success

/-- The last snapshot that was pushed with success. -/
def lastSuccess : Option (Snapshot F) := (successes tr).getLast?

variable (a : Act F)

@[simp] theorem published_snoc : published (tr ++ [a]) = published tr ++ a.publication.toList :=
  filterMap_snoc _ _ _

@[simp] theorem evaluated_snoc : evaluated (tr ++ [a]) = evaluated tr ++ a.evaluation.toList :=
  filterMap_snoc _ _ _

@[simp] theorem successes_snoc : successes (tr ++ [a]) = successes tr ++ a.success.toList :=
  filterMap_snoc _ _ _

end History

/-- The snapshot `s` was pushed without success. -/
def PushFailed (tr : List (Act F)) (s : Snapshot F) : Prop :=
  ∃ attempts e, .pushed s attempts (.error e) ∈ tr

theorem PushFailed.snoc {tr : List (Act F)} {s : Snapshot F} (h : PushFailed tr s) (a : Act F) :
    PushFailed (tr ++ [a]) s := by
  obtain ⟨attempts, e, hmem⟩ := h
  exact ⟨attempts, e, List.mem_append_left _ hmem⟩

/-- No notification on the shutdown channel. -/
def Quiet (_ : World F) : Act F → Prop
  | .shutdown _ | .senderDropped => False
  | _ => True

/-! ### The shutdown channel -/

/-- Nothing is to be seen on the shutdown channel, and the worker is there only once it is
spawned. -/
structure Calm (w : World F) : Prop where
  version : w.shutdown.version = 0
  isOpen : w.shutdown.closed = false
  workerSeen : w.workerSeen = 0
  tickerSeen : w.tickerSeen = 0
  unspawned : w.ticker = .spawned → w.worker = .unspawned

theorem Calm.start : Calm (.start : World F) := ⟨rfl, rfl, rfl, rfl, fun _ => rfl⟩

theorem Calm.not_changed {w : World F} {x : Bool × Nat} (h : Calm w) {seen : Nat}
    (hseen : seen = 0) : w.shutdown.changed seen ≠ some x := by
  simp [Watch.changed, h.version, h.isOpen, hseen]

variable {R : F32 F} {w w' : World F} {a : Act F} {tr : List (Act F)}

theorem Calm.step (h : Calm w) (ha : Quiet w a) (hs : Step R w a w') : Calm w' := by
  obtain ⟨hv, ho, hw, ht, hun⟩ := h
  have hnot {kind : Worker F} (hk : w.worker = kind) (hne : kind ≠ .unspawned) :
      w.ticker ≠ .spawned := fun hsp => hne (hk.symm.trans (hun hsp))
  cases hs with
  | shutdown | senderDropped => exact ha.elim
  | runStarts => exact ⟨hv, ho, hv, hv, fun h => by cases h⟩
  | published | pollFailed => exact ⟨hv, ho, hw, ht, hun⟩
  | runReturns => exact ⟨hv, ho, hw, ht, fun h => by cases h⟩
  | tickerNotified _ hc => exact absurd hc (Calm.not_changed ⟨hv, ho, hw, ht, hun⟩ ht)
  | cancelled _ _ hc | workerNotified _ hc =>
      exact absurd hc (Calm.not_changed ⟨hv, ho, hw, ht, hun⟩ hw)
  | workerStarts hk => exact ⟨hv, ho, hv, ht, fun h => absurd h (hnot hk (by simp))⟩
  | workerReturns hk | statesClosed hk | emptied hk | skipped hk | started hk | pushed hk =>
      exact ⟨hv, ho, hw, ht, fun h => absurd h (hnot hk (by simp))⟩

/-! ### What the worker has seen -/

/-- The snapshots that were evaluated, and the versions of the watch channel. -/
structure Seen (tr : List (Act F)) (w : World F) : Prop where
  version : w.states.version = (published tr).length
  value : w.states.value = (published tr).getLast?
  seen : w.statesSeen ≤ w.states.version
  sublist : ((evaluated tr).map Snapshot.state).Sublist ((published tr).take w.statesSeen)
  order : (evaluated tr).Pairwise fun s t => s.version < t.version
  bounded : ∀ s ∈ evaluated tr, s.version ≤ w.statesSeen
  lookup : ∀ s ∈ evaluated tr, 0 < s.version ∧ (published tr)[s.version - 1]? = some s.state
  last : 0 < w.statesSeen → ∃ s, (evaluated tr).getLast? = some s ∧ s.version = w.statesSeen

theorem Seen.start : Seen [] (.start : World F) :=
  ⟨rfl, rfl, Nat.le_refl _, .slnil, .nil, fun _ h => (by cases h), fun _ h => (by cases h),
    fun h => absurd h (Nat.lt_irrefl 0)⟩

/-- An act that neither publishes nor evaluates. -/
theorem Seen.other (h : Seen tr w) (hp : a.publication = none) (he : a.evaluation = none)
    (hs : w'.states.version = w.states.version ∧ w'.states.value = w.states.value)
    (hseen : w'.statesSeen = w.statesSeen) : Seen (tr ++ [a]) w' := by
  obtain ⟨h₁, h₂, h₃, h₄, h₅, h₆, h₇, h₈⟩ := h
  constructor <;> simpa only [published_snoc, evaluated_snoc, hp, he, Option.toList_none,
    List.append_nil, hs.1, hs.2, hseen]

theorem Seen.publish (h : Seen tr w) (state : RigState F) :
    Seen (tr ++ [.published state]) { w with states := w.states.send (some state) } := by
  have hle : w.statesSeen ≤ (published tr).length := h.version ▸ h.seen
  refine ⟨?_, ?_, ?_, ?_, ?_, ?_, fun s hs => ?_, ?_⟩
  · simp [Act.publication, Watch.send, h.version]
  · simp [Act.publication, Watch.send]
  · exact Nat.le_succ_of_le h.seen
  · simpa [Act.publication, Act.evaluation, List.take_append_of_le_length hle] using h.sublist
  · simpa [Act.evaluation] using h.order
  · simpa [Act.evaluation] using h.bounded
  · have hs : s ∈ evaluated tr := by simpa [Act.evaluation] using hs
    obtain ⟨hpos, hget⟩ := h.lookup s hs
    have hlt : s.version - 1 < (published tr).length := (List.getElem?_eq_some_iff.mp hget).1
    refine ⟨hpos, ?_⟩
    rw [published_snoc, List.getElem?_append_left hlt, hget]
  · simpa [Act.evaluation] using h.last

/-- The latest snapshot is evaluated, and was not seen before. -/
theorem Seen.evaluate (h : Seen tr w) {seen now : Nat} {state : RigState F} {kind : Worker F}
    (hc : w.states.changed w.statesSeen = some (true, seen)) (hv : w.states.value = some state)
    (hp : a.publication = none) (he : a.evaluation = some (w.snapshot state now)) :
    Seen (tr ++ [a]) { w.evaluate now with worker := kind } := by
  have hne : w.states.version ≠ w.statesSeen := (Watch.changed_spec hc).2.2 rfl
  have hlt : w.statesSeen < w.states.version := Nat.lt_of_le_of_ne h.seen (Ne.symm hne)
  have hlast : (published tr).getLast? = some state := h.value ▸ hv
  obtain ⟨init, hpub⟩ := List.getLast?_eq_some_iff.mp hlast
  have hver : w.states.version = init.length + 1 := by simp [h.version, hpub]
  have hsub := h.sublist
  rw [hpub, List.take_append_of_le_length (by omega)] at hsub
  refine ⟨?_, ?_, Nat.le_refl _, ?_, ?_, ?_, fun s hs => ?_, fun _ => ?_⟩
  · simpa [hp, World.evaluate] using h.version
  · simpa [hp, World.evaluate] using h.value
  · have hall : (published tr).take w.states.version = init ++ [state] := by
      rw [h.version, List.take_length, hpub]
    simp only [evaluated_snoc, published_snoc, hp, he, Option.toList_none, Option.toList_some,
      List.append_nil, List.map_append, World.evaluate, hall]
    exact (hsub.trans (List.take_sublist _ _)).append (List.Sublist.refl _)
  · rw [evaluated_snoc, he, Option.toList_some, List.pairwise_append]
    refine ⟨h.order, List.pairwise_singleton _ _, fun s hs t ht => ?_⟩
    rw [List.mem_singleton.mp ht]
    exact Nat.lt_of_le_of_lt (h.bounded s hs) hlt
  · intro s hs
    simp only [evaluated_snoc, he, Option.toList_some, List.mem_append, List.mem_singleton] at hs
    rcases hs with hs | rfl
    · exact Nat.le_trans (h.bounded s hs) h.seen
    · exact Nat.le_refl _
  · simp only [evaluated_snoc, he, Option.toList_some, List.mem_append, List.mem_singleton] at hs
    simp only [published_snoc, hp, Option.toList_none, List.append_nil]
    rcases hs with hs | rfl
    · exact h.lookup s hs
    · refine ⟨Nat.lt_of_le_of_lt (Nat.zero_le _) hlt, ?_⟩
      simp [World.snapshot, hpub, hver]
  · exact ⟨w.snapshot state now, by simp [he], rfl⟩

theorem Seen.step (h : Seen tr w) (hcalm : Calm w) (ha : Quiet w a) (hs : Step R w a w') :
    Seen (tr ++ [a]) w' := by
  cases hs with
  | shutdown | senderDropped => exact ha.elim
  | published state => exact h.publish state
  | skipped hw hc hv => exact h.evaluate hc hv rfl rfl
  | started hw hc hv => exact h.evaluate hc hv rfl rfl
  | tickerNotified _ hc => exact absurd hc (hcalm.not_changed hcalm.tickerSeen)
  | cancelled _ _ hc | workerNotified _ hc => exact absurd hc (hcalm.not_changed hcalm.workerSeen)
  | emptied hw hc hv =>
      -- nothing has been published, so there is nothing to see
      have hne : w.states.version ≠ w.statesSeen := (Watch.changed_spec hc).2.2 rfl
      have hnil : published tr = [] := List.getLast?_eq_none_iff.mp (h.value ▸ hv)
      have hzero : w.states.version = 0 := by rw [h.version, hnil, List.length_nil]
      have := h.seen
      omega
  | runReturns | runStarts | pollFailed | workerReturns | workerStarts | statesClosed | pushed =>
      exact h.other rfl rfl ⟨rfl, rfl⟩ rfl

/-! ### What the worker has pushed -/

/-- The deduper, and what came of the last snapshot that was evaluated. -/
structure Settles (R : F32 F) (tr : List (Act F)) (w : World F) : Prop where
  deduper : w.deduper = .after R ((lastSuccess tr).map fun p => (p.state, p.now))
  pushing : ∀ s kind, w.worker = .pushing s kind → (evaluated tr).getLast? = some s
  settled : (∀ s kind, w.worker ≠ .pushing s kind) → ∀ s, (evaluated tr).getLast? = some s →
    PushFailed tr s ∨ ∃ p, lastSuccess tr = some p ∧ SameBin R p.state s.state

theorem Settles.start : Settles R [] (.start : World F) :=
  ⟨rfl, fun _ _ h => (by cases h), fun _ _ h => by cases h⟩

/-- A step that neither evaluates nor pushes. -/
theorem Settles.other (h : Settles R tr w) (he : a.evaluation = none) (hs : a.success = none)
    (hd : w'.deduper = w.deduper)
    (hw : w'.worker = w.worker ∨
      (∀ s kind, w.worker ≠ .pushing s kind) ∧ ∀ s kind, w'.worker ≠ .pushing s kind) :
    Settles R (tr ++ [a]) w' := by
  have hlast : lastSuccess (tr ++ [a]) = lastSuccess tr := by simp [lastSuccess, hs]
  have heval : evaluated (tr ++ [a]) = evaluated tr := by simp [he]
  refine ⟨by rw [hd, hlast, h.deduper], fun s kind hp => ?_, fun hnot s hlst => ?_⟩
  · rw [heval]
    rcases hw with hw | ⟨-, hw'⟩
    · exact h.pushing s kind (hw ▸ hp)
    · exact absurd hp (hw' s kind)
  · rw [heval] at hlst
    rw [hlast]
    have hnot' : ∀ s kind, w.worker ≠ .pushing s kind := hw.elim (fun hw => hw ▸ hnot) And.left
    exact (h.settled hnot' s hlst).imp (fun hf => hf.snoc a) id

theorem Settles.skip (h : Settles R tr w) {state : RigState F} {now : Nat}
    (hw : w.worker = .idle) (hskip : w.deduper.shouldSkip R state now = true) :
    Settles R (tr ++ [.skipped (w.snapshot state now)]) (w.evaluate now) := by
  have hlast : lastSuccess (tr ++ [.skipped (w.snapshot state now)]) = lastSuccess tr := by
    simp [lastSuccess, Act.success]
  refine ⟨by rw [hlast]; exact h.deduper, fun s kind hp => ?_, fun _ s hs => .inr ?_⟩
  · cases hw.symm.trans hp
  · obtain rfl : s = w.snapshot state now := by simpa [Act.evaluation, eq_comm] using hs
    rw [h.deduper, shouldSkip_after] at hskip
    obtain ⟨_, _, hp, hbin, -⟩ := hskip
    obtain ⟨p, hp', heq⟩ := Option.map_eq_some_iff.mp hp
    cases heq
    exact ⟨p, hlast.trans hp', hbin⟩

theorem Settles.push (h : Settles R tr w) {s : Snapshot F} {kind : PushKind}
    {attempts : List Attempt} {res : Except WavelogError Unit} (hw : w.worker = .pushing s kind) :
    Settles R (tr ++ [.pushed s attempts res])
      { w with worker := .idle, deduper := afterPush R w.deduper s res } := by
  have heval : evaluated (tr ++ [.pushed s attempts res]) = evaluated tr := by
    simp [Act.evaluation]
  have hlst := h.pushing s kind hw
  cases res with
  | ok u =>
      have hlast : lastSuccess (tr ++ [.pushed s attempts (.ok u)]) = some s := by
        simp [lastSuccess, Act.success]
      refine ⟨by rw [hlast]; rfl, fun _ _ hp => (by cases hp), fun _ t ht => .inr ⟨s, hlast, ?_⟩⟩
      rw [heval, hlst] at ht
      cases ht
      exact ⟨rfl, rfl, rfl⟩
  | error e =>
      have hlast : lastSuccess (tr ++ [.pushed s attempts (.error e)]) = lastSuccess tr := by
        simp [lastSuccess, Act.success]
      refine ⟨by rw [hlast]; exact h.deduper, fun _ _ hp => (by cases hp), fun _ t ht => .inl ?_⟩
      rw [heval, hlst] at ht
      cases ht
      exact ⟨attempts, e, by simp⟩

theorem Settles.step (h : Settles R tr w) (hcalm : Calm w) (ha : Quiet w a)
    (hs : Step R w a w') : Settles R (tr ++ [a]) w' := by
  cases hs with
  | shutdown | senderDropped => exact ha.elim
  | tickerNotified _ hc => exact absurd hc (hcalm.not_changed hcalm.tickerSeen)
  | cancelled _ _ hc | workerNotified _ hc => exact absurd hc (hcalm.not_changed hcalm.workerSeen)
  | published | pollFailed | runReturns => exact h.other rfl rfl rfl (.inl rfl)
  | runStarts ht =>
      exact h.other rfl rfl rfl (.inr ⟨by simp [hcalm.unspawned ht], by simp⟩)
  | workerReturns hw | workerStarts hw | statesClosed hw =>
      exact h.other rfl rfl rfl (.inr ⟨by simp [hw], by simp⟩)
  | emptied hw => exact h.other rfl rfl rfl (.inl rfl)
  | skipped hw hc hv hnow hskip => exact h.skip hw hskip
  | started hw =>
      have hnot : ∀ s kind, w.worker ≠ .pushing s kind := by simp [hw]
      refine ⟨?_, fun s kind hp => ?_, fun hp => absurd rfl (hp _ _)⟩
      · simpa [lastSuccess, Act.success, World.evaluate] using h.deduper
      · cases hp
        simp [Act.evaluation]
  | pushed hw => exact h.push hw

/-! ### The headline -/

/-- **The worker never settles on a stale state.** -/
structure NeverStale (R : F32 F) (tr : List (Act F)) (w : World F) : Prop where
  /-- What is evaluated was published, in that order, and none of it twice. -/
  sublist : ((evaluated tr).map Snapshot.state).Sublist (published tr)
  order : (evaluated tr).Pairwise fun s t => s.version < t.version
  lookup : ∀ s ∈ evaluated tr, 0 < s.version ∧ (published tr)[s.version - 1]? = some s.state
  /-- A snapshot is skipped when the last one that was pushed with success has its bin and is
  recent. -/
  skipped : ∀ tr₁ a tr₂ s, tr = tr₁ ++ a :: tr₂ → a.evaluation = some s →
    (a = .skipped s ↔ ∃ p, lastSuccess tr₁ = some p ∧ SameBin R p.state s.state ∧
      s.now - p.now < heartbeatInterval)
  failed : ∀ s attempts e w', Step R w (.pushed s attempts (.error e)) w' → w'.deduper = w.deduper
  settled : w.worker = .idle → w.statesSeen = w.states.version →
    ∀ latest, (published tr).getLast? = some latest →
      (∃ s, (evaluated tr).getLast? = some s ∧ PushFailed tr s) ∨
        ∃ p, lastSuccess tr = some p ∧ SameBin R p.state latest

theorem skipped_iff {m m' : World F} {s : Snapshot F} (h : Settles R tr m) (hs : Step R m a m')
    (ha : a.evaluation = some s) :
    a = .skipped s ↔ ∃ p, lastSuccess tr = some p ∧ SameBin R p.state s.state ∧
      s.now - p.now < heartbeatInterval := by
  have hskip {state : RigState F} {now : Nat} : m.deduper.shouldSkip R state now = true ↔
      ∃ p, lastSuccess tr = some p ∧ SameBin R p.state state ∧ now - p.now < heartbeatInterval := by
    rw [h.deduper, shouldSkip_after]
    constructor
    · rintro ⟨_, _, hp, hbin, hlt⟩
      obtain ⟨p, hp', heq⟩ := Option.map_eq_some_iff.mp hp
      cases heq
      exact ⟨p, hp', hbin, hlt⟩
    · rintro ⟨p, hp, hbin, hlt⟩
      exact ⟨p.state, p.now, by simp [hp], hbin, hlt⟩
  cases hs with
  | skipped hw hc hv hnow hsk =>
      cases ha
      exact iff_of_true rfl (hskip.mp hsk)
  | started hw hc hv hnow hsk =>
      cases ha
      refine iff_of_false (fun h => by cases h) fun hp => ?_
      exact absurd (hskip.mpr hp) (by simp [World.snapshot, hsk])
  | _ => cases ha

theorem never_stale (h : Run (Step R) Quiet .start tr w) : NeverStale R tr w := by
  have hcalm {tr w} (h : Run (Step R) Quiet .start tr w) : Calm w :=
    h.invariant (I := fun _ w => Calm w) .start fun _ h ha hs => h.step ha hs
  have hsettles {tr w} (h : Run (Step R) Quiet .start tr w) : Settles R tr w :=
    h.invariant .start fun hr h ha hs => h.step (hcalm hr) ha hs
  have hseen : Seen tr w := h.invariant .start fun hr h ha hs => h.step (hcalm hr) ha hs
  refine ⟨hseen.sublist.trans (List.take_sublist _ _), hseen.order, hseen.lookup,
    fun tr₁ a tr₂ s heq ha => ?_, fun s attempts e w' hs => ?_, fun hidle hnone latest hl => ?_⟩
  · obtain ⟨m, m', hr, -, hs, -⟩ := (heq ▸ h).step_at
    exact skipped_iff (hsettles hr) hs ha
  · cases hs
    rfl
  · obtain ⟨init, hpub⟩ := List.getLast?_eq_some_iff.mp hl
    have hpos : 0 < w.statesSeen := by simp [hnone, hseen.version, hpub]
    obtain ⟨s, hs, hver⟩ := hseen.last hpos
    have hlatest : s.state = latest := by
      have hget := (hseen.lookup s (List.mem_of_getLast? hs)).2
      rw [hver, hnone, hseen.version, ← List.getLast?_eq_getElem?, hl] at hget
      exact (Option.some.inj hget).symm
    rcases (hsettles h).settled (by simp [hidle]) s hs with hf | ⟨p, hp, hbin⟩
    · exact .inl ⟨s, hs, hf⟩
    · exact .inr ⟨p, hp, hlatest ▸ hbin⟩

/-- A rig that stays where it is. -/
def usbState : RigState Nat := { freq := 14074000, mode := "USB".toList, power := none }

/-- The first snapshot is pushed, and the second is skipped. -/
def constantActs : List (Act Nat) :=
  [.ticker, .worker, .published usbState, .started ⟨1, usbState, 0⟩ .initial,
    .pushed ⟨1, usbState, 0⟩ [⟨.answered 200 none, true⟩] (.ok ()), .published usbState,
    .skipped ⟨2, usbState, 1000⟩]

def constantEnd : World Nat :=
  { (World.start : World Nat) with
    states := ⟨some usbState, 2, false⟩
    ticker := .ticking
    worker := .idle
    statesSeen := 2
    deduper := ⟨some (keyOf wholePower usbState), some 0⟩
    clock := 1000 }

theorem constant_never_stale : NeverStale wholePower constantActs constantEnd := by
  refine never_stale ?_
  refine .cons trivial (.runStarts rfl rfl) ?_
  refine .cons trivial (.workerStarts rfl rfl) ?_
  refine .cons trivial (.published _ rfl) ?_
  refine .cons trivial (.started rfl rfl rfl (Nat.le_refl 0) rfl) ?_
  refine .cons trivial (.pushed rfl (fun x hx _ => ?_) rfl) ?_
  · rw [List.mem_singleton.mp hx]
  refine .cons trivial (.published _ rfl) ?_
  exact .cons trivial (.skipped rfl rfl rfl (Nat.zero_le 1000) rfl) .nil

end WavelogRelay.Poller
