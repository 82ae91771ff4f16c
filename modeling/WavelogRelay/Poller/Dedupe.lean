import WavelogRelay.Rig.Protocol

/-!
# Poller — the deduper

`Deduper` of `poller.rs`: which snapshots of the rig are not pushed, given the last one that was.
Instants are in milliseconds.

* `shouldSkip_iff`: a snapshot is skipped when the last recorded one has its key and is recent.
-/

namespace WavelogRelay.Poller
open Library Rig

/-- `HEARTBEAT_INTERVAL`. -/
def heartbeatInterval : Nat := 30000

structure DedupeKey where
  freq : UInt64
  mode : Text
  rfpowerQ : Option Int
  deriving DecidableEq, Repr

structure Deduper where
  last : Option DedupeKey
  lastAt : Option Nat
  deriving DecidableEq, Repr

def Deduper.default : Deduper := { last := none, lastAt := none }

inductive PushKind where
  | initial
  | change
  | power
  | heartbeat
  deriving DecidableEq, Repr

section

variable {F : Type} (R : F32 F)

def quantizeRfpower (rfpower : F) : Int := R.roundScaled 200 rfpower

/-- The key that `record` makes of a snapshot. -/
def keyOf (state : RigState F) : DedupeKey :=
  { freq := state.freq, mode := state.mode, rfpowerQ := state.power.map (quantizeRfpower R) }

/-- `duration_since` is zero when there is none. -/
def Deduper.shouldSkip (d : Deduper) (state : RigState F) (now : Nat) : Bool :=
  match d.last, d.lastAt with
  | some last, some lastAt =>
      last.freq == state.freq && last.mode == state.mode &&
        last.rfpowerQ == state.power.map (quantizeRfpower R) && now - lastAt < heartbeatInterval
  | _, _ => false

def Deduper.record (_ : Deduper) (state : RigState F) (now : Nat) : Deduper :=
  { last := some (keyOf R state), lastAt := some now }

def Deduper.classify (d : Deduper) (state : RigState F) : PushKind :=
  match d.last with
  | none => .initial
  | some last =>
      if last.freq != state.freq || last.mode != state.mode then .change
      else if last.rfpowerQ != state.power.map (quantizeRfpower R) then .power
      else .heartbeat

end

variable {F : Type} {R : F32 F}

/-- The same frequency, mode and RFPOWER bin. -/
def SameBin (R : F32 F) (s t : RigState F) : Prop :=
  s.freq = t.freq ∧ s.mode = t.mode ∧
    s.power.map (quantizeRfpower R) = t.power.map (quantizeRfpower R)

theorem keyOf_eq_iff {s t : RigState F} : keyOf R s = keyOf R t ↔ SameBin R s t := by
  simp [keyOf, SameBin]

/-- A push was recorded less than `heartbeatInterval` ago. -/
def Deduper.Recent (d : Deduper) (now : Nat) : Prop :=
  ∃ lastAt, d.lastAt = some lastAt ∧ now - lastAt < heartbeatInterval

theorem Deduper.Recent.of_le {d : Deduper} {now now' : Nat} (h : d.Recent now')
    (hle : now ≤ now') : d.Recent now := by
  obtain ⟨lastAt, hat, hlt⟩ := h
  exact ⟨lastAt, hat, by omega⟩

/-- What is skipped has the key that was recorded, not long ago. -/
theorem last_of_shouldSkip {d : Deduper} {state : RigState F} {now : Nat}
    (h : d.shouldSkip R state now = true) :
    d.last = some (keyOf R state) ∧ d.Recent now := by
  unfold Deduper.shouldSkip at h
  split at h
  · rename_i last lastAt hlast hat
    simp only [Bool.and_eq_true, beq_iff_eq, decide_eq_true_eq] at h
    obtain ⟨⟨⟨hfreq, hmode⟩, hpower⟩, hlt⟩ := h
    exact ⟨by rw [hlast, keyOf, ← hfreq, ← hmode, ← hpower], lastAt, hat, hlt⟩
  · cases h

/-- The deduper that has recorded the snapshot `p`, if any. -/
def Deduper.after (R : F32 F) : Option (RigState F × Nat) → Deduper
  | none => .default
  | some (state, now) => { last := some (keyOf R state), lastAt := some now }

/-- **A snapshot is skipped** exactly when there is a recorded one with its bin, less than
`heartbeatInterval` ago. -/
theorem shouldSkip_after {p : Option (RigState F × Nat)} {state : RigState F} {now : Nat} :
    (Deduper.after R p).shouldSkip R state now = true ↔
      ∃ s t, p = some (s, t) ∧ SameBin R s state ∧ now - t < heartbeatInterval := by
  cases p with
  | none => simp [Deduper.after, Deduper.default, Deduper.shouldSkip]
  | some p =>
      obtain ⟨s, t⟩ := p
      simp [Deduper.after, Deduper.shouldSkip, keyOf, SameBin, and_assoc]

end WavelogRelay.Poller
