import WavelogRelay.Rig.Device

/-!
# Rig — the actor and rigctld are one object

The actor beside a rigctld that obeys its lines, on any number of connections one after another,
and beside whoever sets the transceiver by hand (`Coupled`).

* `Atomic`: the object that they are, whose commands are each one step.
* `Abstracts.step`: the object is where the device was when the command in hand began.
* `atomic`: every run of the actor, its clients and rigctld is a run of the object.
* `shown`: what a command has set is what a poll shows, until it is set again.
-/

namespace WavelogRelay.Rig
open Library Dialogue

/-! ### The device beside a system -/

variable {σ α F : Type} {R : F32 F}

/-- An act that rigctld has no part in. -/
def Act.Apart : Act F → Prop
  | .connected _ | .wire _ _ => False
  | _ => True

/-- What an act of the actor makes of rigctld; a connection begins with nothing owed. -/
inductive Rigctld.Moves : Rigctld R → Act F → Rigctld R → Prop where
  | connected {x : Rigctld R} {conn : Nat} : Moves x (.connected conn) ⟨x.device, []⟩
  | wire {x y : Rigctld R} {conn : Nat} {e : WireEvent} (h : x.Answers e y) :
      Moves x (.wire conn e) y
  | apart {x : Rigctld R} {a : Act F} (h : a.Apart) : Moves x a x

/-- A system that an actor is part of, and rigctld. -/
structure Coupled (R : F32 F) (σ : Type) where
  sys : σ
  rigctld : Rigctld R

inductive Coupled.Act (R : F32 F) (α : Type) where
  | act (a : α)
  /-- Somebody sets the transceiver by hand. -/
  | turned (d : Device R)

/-- The system takes its steps, and rigctld its part in those of the actor, which `label` tells. -/
inductive Coupled.Step (R : F32 F) (step : σ → α → σ → Prop) (label : α → Option (Rig.Act F)) :
    Coupled R σ → Coupled.Act R α → Coupled R σ → Prop where
  | silent {p : Coupled R σ} {a : α} {s : σ} (hs : step p.sys a s) (ha : label a = none) :
      Step R step label p (.act a) { p with sys := s }
  | act {p : Coupled R σ} {a : α} {r : Rig.Act F} {s : σ} {x : Rigctld R}
      (hs : step p.sys a s) (ha : label a = some r) (hx : p.rigctld.Moves r x) :
      Step R step label p (.act a) ⟨s, x⟩
  | turned {p : Coupled R σ} (d : Device R) :
      Step R step label p (.turned d) { p with rigctld := { p.rigctld with device := d } }

/-- Nobody sets the transceiver while a command is carried out. -/
def HandsOff (rig : σ → World F) (p : Coupled R σ) : Coupled.Act R α → Prop
  | .act _ => True
  | .turned _ => (rig p.sys).phase.jobs = []

/-- A run of the system, and one of rigctld along it, when nobody else sets the transceiver. -/
theorem Coupled.of_runs {step : σ → α → σ → Prop} {label : α → Option (Rig.Act F)}
    {rig : σ → World F} {C : σ → α → Prop} {s₀ s : σ} {tr : List α} {x y : Rigctld R}
    (h : Run step C s₀ tr s) (hx : Run Rigctld.Moves Always x (tr.filterMap label) y) :
    Run (Coupled.Step R step label) (HandsOff rig) ⟨s₀, x⟩ (tr.map .act) ⟨s, y⟩ := by
  induction h generalizing y with
  | nil =>
      cases hx.eq_of_nil
      exact .nil
  | @snoc tr s s' a _ _ hs ih =>
      rw [List.filterMap_append] at hx
      rw [List.map_append]
      obtain ⟨m, hm, hy⟩ := hx.of_append
      cases hl : label a with
      | none =>
          rw [List.filterMap_cons, hl] at hy
          cases hy.eq_of_nil
          exact (ih hm).extend (.silent hs hl) trivial
      | some r =>
          rw [List.filterMap_cons, hl] at hy
          have hone : Run Rigctld.Moves Always m ([] ++ [r]) y := hy
          obtain ⟨m₁, m₂, hnil, -, hmove, hend⟩ := hone.step_at
          cases hnil.eq_of_nil
          cases hend.eq_of_nil
          exact (ih hm).extend (.act hs hl hmove) trivial

/-! ### The object -/

inductive Event (R : F32 F) where
  /-- A command has ended, or was cut short. -/
  | ended (job : Job) (res : Except IoError (Except RigError (Reply F)))
  | turned (d : Device R)

/-- **The object**: each command is one step. -/
inductive Atomic : Device R → Event R → Device R → Prop where
  | ended {d d' : Device R} {job : Job} {res : Except IoError (Except RigError (Reply F))}
      (h : Does R d job.cmd res d') : Atomic d (.ended job res) d'
  | turned {d : Device R} (d' : Device R) : Atomic d (.turned d') d'

/-- What an act of the actor is to the object. -/
def Act.seen : Act F → Option (Event R)
  | .served _ job res => some (.ended job (.ok res))
  | .lost _ job e => some (.ended job (.error e))
  | _ => none

def Coupled.Act.seen : Coupled.Act R (Rig.Act F) → Option (Event R)
  | .act a => a.seen
  | .turned d => some (.turned d)

/-! ### Refinement -/

/-- The object is where the device is, or was when the command in hand began: what is left of that
will end as if it were carried out at once. -/
def Abstracts (d : Device R) (p : Coupled R (World F)) : Prop :=
  match p.sys.phase with
  | .running _ job rest => wp Rigctld.Answers Rigctld.Takes (Ended d job.cmd) rest p.rigctld
  | .serving _ => p.rigctld = ⟨d, []⟩
  | .connecting | .sleeping _ | .stopped => p.rigctld.device = d

theorem Abstracts.of_phase {d : Device R} {p : Coupled R (World F)} {w : World F}
    (h : Abstracts d p) (hp : w.phase = p.sys.phase) : Abstracts d ⟨w, p.rigctld⟩ := by
  rw [Abstracts] at h ⊢
  rwa [hp]

variable {d : Device R} {p p' : Coupled R (World F)} {a : Coupled.Act R (Act F)}

theorem Abstracts.device {w : World F} {x : Rigctld R} (h : Abstracts d ⟨w, x⟩)
    (hjobs : w.phase.jobs = []) : x.device = d := by
  cases hp : w.phase with
  | running => simp [hp, Phase.jobs] at hjobs
  | serving =>
      simp only [Abstracts, hp] at h
      rw [h]
  | connecting | sleeping | stopped => simpa only [Abstracts, hp] using h

/-- What rigctld does in an act that it has no part in. -/
theorem Rigctld.Moves.eq_of_apart {x y : Rigctld R} {a : Act F} (h : x.Moves a y)
    (ha : a.Apart) : y = x := by
  cases h with
  | connected | wire => exact ha.elim
  | apart => rfl

/-- **A step of the actor and rigctld** is the step of the object that is seen of it, or none. -/
theorem Abstracts.step (h : Abstracts d p) (hands : HandsOff id p a)
    (hs : Coupled.Step R (Step R) some p a p') :
    ∃ d', Abstracts d' p' ∧ (a.seen = none ∧ d' = d ∨ ∃ b, a.seen = some b ∧ Atomic d b d') := by
  cases hs with
  | silent _ hl => cases hl
  | turned d' =>
      refine ⟨d', ?_, .inr ⟨_, rfl, .turned d'⟩⟩
      have hjobs : p.sys.phase.jobs = [] := hands
      cases hp : p.sys.phase with
      | running => simp [hp, Phase.jobs] at hjobs
      | serving =>
          simp only [Abstracts, hp] at h ⊢
          rw [h]
      | connecting | sleeping | stopped => simp only [Abstracts, hp]
  | @act _ a w x hs hl hx =>
      cases hl
      cases hs with
      | requested | abandoned | sent | handlesDropped | drained =>
          obtain rfl := hx.eq_of_apart trivial
          exact ⟨d, h.of_phase rfl, .inl ⟨rfl, rfl⟩⟩
      | connected hp =>
          cases hx with
          | connected =>
              have hd := h.device (x := p.rigctld) (w := p.sys) (by rw [hp]; rfl)
              exact ⟨d, hd ▸ rfl, .inl ⟨rfl, rfl⟩⟩
          | apart h => exact h.elim
      | connectFailed hp | woke hp | stoppedServing hp | stoppedSleeping hp =>
          obtain rfl := hx.eq_of_apart trivial
          have hd := h.device (x := p.rigctld) (w := p.sys) (by rw [hp]; rfl)
          exact ⟨d, hd, .inl ⟨rfl, rfl⟩⟩
      | received hp =>
          obtain rfl := hx.eq_of_apart trivial
          simp only [Abstracts, hp] at h
          refine ⟨d, ?_, .inl ⟨rfl, rfl⟩⟩
          rw [Abstracts, h]
          exact handleCommand_does d _
      | wire hp e =>
          cases hx with
          | wire hx =>
              simp only [Abstracts, hp] at h
              exact ⟨d, (wp_ask.mp h).2 _ _ hx, .inl ⟨rfl, rfl⟩⟩
          | apart h => exact h.elim
      | served hp =>
          obtain rfl := hx.eq_of_apart trivial
          simp only [Abstracts, hp] at h
          obtain ⟨hdoes, howed⟩ := wp_done.mp h
          refine ⟨p.rigctld.device, ?_, .inr ⟨_, rfl, .ended hdoes⟩⟩
          rw [Abstracts, ← howed _ rfl]
      | lost hp =>
          obtain rfl := hx.eq_of_apart trivial
          simp only [Abstracts, hp] at h
          exact ⟨p.rigctld.device, rfl, .inr ⟨_, rfl, .ended (wp_done.mp h).1⟩⟩

theorem abstracts_run {d₀ : Device R} {owed : List Text} {tr : List (Coupled.Act R (Act F))}
    (h : Run (Coupled.Step R (Step R) some) (HandsOff id) ⟨.spawn, ⟨d₀, owed⟩⟩ tr p) :
    ∃ d, Abstracts d p ∧ Run Atomic Always d₀ (tr.filterMap Coupled.Act.seen) d :=
  have h₀ : Abstracts d₀ (⟨.spawn, ⟨d₀, owed⟩⟩ : Coupled R (World F)) := rfl
  h.forward Abstracts Coupled.Act.seen (fun h ha hs => h.step ha hs) h₀

/-- A transceiver on 20 m. -/
def dialled : Device wholePower where
  freq := 14200000
  mode := "USB".toList
  power := none
  mode_ne_nil := by decide
  mode_word := (asStr_word .usb).2
  power_plain _ h := by cases h
  power_finite _ h := by cases h

/-- A click whose mode is refused. -/
def refusedJob : Job := ⟨0, .setFreqMode 7074000 .pktUsb⟩

def refusedActs : List (Act Nat) :=
  [.requested refusedJob, .sent refusedJob, .connected 0, .received 0 refusedJob,
    .wire 0 ⟨.send (setFreqLine 7074000), .ok ()⟩, .wire 0 ⟨.readLine, .ok "RPRT 0\n".toList⟩,
    .wire 0 ⟨.send (setModeLine .pktUsb), .ok ()⟩, .wire 0 ⟨.readLine, .ok "RPRT -1\n".toList⟩,
    .served 0 refusedJob (.error (.hamlib (-1)))]

/-- Then somebody turns the dial. -/
def turned : Device wholePower := dialled.setFreq 3573000

def dialJob : Job := ⟨1, .getFreq⟩

/-- A set whose answer does not come in time. -/
def lateJob : Job := ⟨2, .setFreq 18100000⟩

def dialActs : List (Act Nat) :=
  [.requested dialJob, .sent dialJob, .received 0 dialJob,
    .wire 0 ⟨.send "f".toList, .ok ()⟩, .wire 0 ⟨.readLine, .ok "3573000\n".toList⟩,
    .served 0 dialJob (.ok (.freq 3573000)), .requested lateJob, .sent lateJob,
    .received 0 lateJob, .wire 0 ⟨.send (setFreqLine 18100000), .ok ()⟩,
    .wire 0 ⟨.readLine, .error .timedOut⟩, .lost 0 lateJob .timedOut]

theorem refused_run : Run (Coupled.Step wholePower (Step wholePower) some) (HandsOff id)
    ⟨.spawn, ⟨dialled, []⟩⟩ (refusedActs.map .act)
    ⟨{ (World.spawn : World Nat) with requests := 1, conns := 1, phase := .serving 0 },
      ⟨dialled.setFreq 7074000, []⟩⟩ := by
  have hrig : Run (Step wholePower) Always .spawn refusedActs
      { (World.spawn : World Nat) with requests := 1, conns := 1, phase := .serving 0 } := by
    refine .cons trivial (.requested _ rfl) ?_
    refine .cons trivial (.sent (l := []) rfl (by decide)) ?_
    refine .cons trivial (.connected rfl) ?_
    refine .cons trivial (.received rfl rfl) ?_
    refine .cons trivial (.wire (q := .send _) rfl (.ok ())) ?_
    refine .cons trivial (.wire (q := .readLine) rfl (.ok _)) ?_
    refine .cons trivial (.wire (q := .send _) rfl (.ok ())) ?_
    refine .cons trivial (.wire (q := .readLine) rfl (.ok _)) ?_
    exact .cons trivial (.served rfl) .nil
  have hrefuses : Refuses "RPRT -1".toList := ⟨by decide, -1, by decide, rfl⟩
  have hrigctld : Run Rigctld.Moves Always (⟨dialled, []⟩ : Rigctld wholePower)
      (refusedActs.filterMap some) ⟨dialled.setFreq 7074000, []⟩ := by
    refine .cons trivial (.apart trivial) ?_
    refine .cons trivial (.apart trivial) ?_
    refine .cons trivial .connected ?_
    refine .cons trivial (.apart trivial) ?_
    refine .cons trivial (.wire (.sent (.setFreq rfl))) ?_
    refine .cons trivial (.wire (.read (r := "RPRT 0".toList) rfl)) ?_
    refine .cons trivial (.wire (.sent (.refused (r := "RPRT -1".toList) hrefuses))) ?_
    refine .cons trivial (.wire (.read (r := "RPRT -1".toList) rfl)) ?_
    exact .cons trivial (.apart trivial) .nil
  exact Coupled.of_runs hrig hrigctld

theorem dial_run : Run (Coupled.Step wholePower (Step wholePower) some) (HandsOff id)
    ⟨{ (World.spawn : World Nat) with requests := 1, conns := 1, phase := .serving 0 },
      ⟨turned, []⟩⟩ (dialActs.map .act)
    ⟨({ (World.spawn : World Nat) with
        requests := 3, conns := 1, phase := .serving 0 }).failed .unresponsive,
      ⟨turned.setFreq 18100000, ["RPRT 0".toList]⟩⟩ := by
  have hrig : Run (Step wholePower) Always
      { (World.spawn : World Nat) with requests := 1, conns := 1, phase := .serving 0 } dialActs
      (({ (World.spawn : World Nat) with
        requests := 3, conns := 1, phase := .serving 0 }).failed .unresponsive) := by
    refine .cons trivial (.requested _ rfl) ?_
    refine .cons trivial (.sent (l := []) rfl (by decide)) ?_
    refine .cons trivial (.received rfl rfl) ?_
    refine .cons trivial (.wire (q := .send _) rfl (.ok ())) ?_
    refine .cons trivial (.wire (q := .readLine) rfl (.ok _)) ?_
    refine .cons trivial (.served rfl) ?_
    refine .cons trivial (.requested _ rfl) ?_
    refine .cons trivial (.sent (l := []) rfl (by decide)) ?_
    refine .cons trivial (.received rfl rfl) ?_
    refine .cons trivial (.wire (q := .send _) rfl (.ok ())) ?_
    refine .cons trivial (.wire (q := .readLine) rfl (.error .timedOut)) ?_
    exact .cons trivial (.lost rfl) .nil
  have hrigctld : Run Rigctld.Moves Always (⟨turned, []⟩ : Rigctld wholePower)
      (dialActs.filterMap some) ⟨turned.setFreq 18100000, ["RPRT 0".toList]⟩ := by
    refine .cons trivial (.apart trivial) ?_
    refine .cons trivial (.apart trivial) ?_
    refine .cons trivial (.apart trivial) ?_
    refine .cons trivial (.wire (.sent (.freq rfl))) ?_
    refine .cons trivial (.wire (.read (r := "3573000".toList) rfl)) ?_
    refine .cons trivial (.apart trivial) ?_
    refine .cons trivial (.apart trivial) ?_
    refine .cons trivial (.apart trivial) ?_
    refine .cons trivial (.apart trivial) ?_
    refine .cons trivial (.wire (.sent (.setFreq rfl))) ?_
    refine .cons trivial (.wire (.readFailed .read)) ?_
    exact .cons trivial (.apart trivial) .nil
  exact Coupled.of_runs hrig hrigctld

/-- Whether a command sets the transceiver. -/
def RigCommand.sets : RigCommand → Bool
  | .setFreq _ | .setMode _ | .setFreqMode _ _ => true
  | .getFreq | .getMode | .getPower | .poll => false

/-- The transceiver is set, or may have been. -/
def Event.Sets : Event R → Prop
  | .ended job _ => job.cmd.sets = true
  | .turned _ => True

variable {d' : Device R} {b : Event R}

theorem Atomic.eq_of_reads (h : Atomic d b d') (hb : ¬ b.Sets) : d' = d := by
  cases h with
  | turned => exact absurd trivial hb
  | @ended _ job res h =>
      obtain ⟨id, cmd⟩ := job
      change ¬ cmd.sets = true at hb
      cases h with
      | getFreq | getMode | getPower | poll | refused => rfl
      | setFreq | setMode | setFreqMode | halfRefused => exact absurd rfl hb
      | lost hpart =>
          cases hpart with
          | nothing => rfl
          | setFreq | setMode | half | both => exact absurd rfl hb

theorem eq_of_reads_run {es : List (Event R)} (h : Run Atomic Always d es d')
    (hes : ∀ b ∈ es, ¬ b.Sets) : d' = d := by
  refine h.invariant (I := fun tr s => (∀ b ∈ tr, ¬ b.Sets) → s = d) (fun _ => rfl) ?_ hes
  intro tr s b s' _ ih _ hs htr
  obtain ⟨hold, hb⟩ := List.forall_mem_append.mp htr
  exact (hs.eq_of_reads (hb b (List.mem_singleton_self b))).trans (ih hold)

/-- **What a command has set, a poll shows**, until it is set again. -/
theorem shown {es₁ es₂ es₃ : List (Event R)} {job poll : Job} {hz : UInt64} {mode : HamlibMode}
    {state : RigState F}
    (h : Run Atomic Always d (es₁ ++ .ended job (.ok (.ok .done)) ::
      (es₂ ++ .ended poll (.ok (.ok (.state state))) :: es₃)) d')
    (hjob : job.cmd = .setFreqMode hz mode) (hes : ∀ b ∈ es₂, ¬ b.Sets) :
    state.freq = hz ∧ state.mode = mode.asStr := by
  obtain ⟨m₁, m₂, -, -, hset, h⟩ := h.step_at
  obtain ⟨m₃, m₄, h', -, hpoll, -⟩ := h.step_at
  obtain rfl := eq_of_reads_run h' hes
  cases hset with
  | ended hset =>
      rw [hjob] at hset
      cases hset with
      | setFreqMode =>
          cases hpoll with
          | ended hpoll =>
              generalize poll.cmd = cmd at hpoll
              cases hpoll with
              | poll => exact ⟨rfl, rfl⟩

end WavelogRelay.Rig
