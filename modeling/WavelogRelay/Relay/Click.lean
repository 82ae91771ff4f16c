import WavelogRelay.Relay.EndToEnd
import WavelogRelay.Rig.Atomic

/-!
# Relay — what is clicked is what is shown

The relay beside a rigctld that obeys its lines, and beside whoever sets the transceiver by hand.

* `coupled_rig_run`, `coupled_relay_run`: a run of the two is one of the actor and rigctld, and one
  of the relay.
* `served_since`: what the loop publishes has been told since it asked.
* `asks_of_dispatched`: what the command of a request sets is what its segments ask for.
* `click_shown`: so what is published since a click was carried out is what was clicked, until the
  transceiver is set again.
-/

namespace WavelogRelay.Relay
open Library
open Listener (Asks)
open Rig (Coupled Device HandsOff HamlibMode Job RigState Rigctld)

variable {κ ν F : Type}

/-- The act of the actor, or of a client of it, that an act is. -/
def Act.toRig (a : Act κ ν F) : Option (Rig.Act F) := a.toListener.bind (·.rigAct)

theorem toRig_eq (tr : List (Act κ ν F)) : toRig tr = tr.filterMap Act.toRig :=
  List.filterMap_filterMap

/-- The actor of the relay. -/
def World.rig (w : World κ ν F) : Rig.World F := w.listener.rig

section Coupled

variable {R : Rig.F32 F}

/-- An act seen from the actor. -/
def onRig : Coupled.Act R (Act κ ν F) → Option (Coupled.Act R (Rig.Act F))
  | .act a => a.toRig.map .act
  | .turned d => some (.turned d)

/-- An act of the relay. -/
def ofRelay : Coupled.Act R (Act κ ν F) → Option (Act κ ν F)
  | .act a => some a
  | .turned _ => none

/-- The transceiver is set, or may have been. -/
def Sets (a : Coupled.Act R (Act κ ν F)) : Prop :=
  ∃ r b, onRig a = some r ∧ r.seen = some b ∧ b.Sets

end Coupled

variable [DecidableEq κ] [DecidableEq ν] {P : Setup κ F} {w w' : World κ ν F}

theorem Step.toRig {a : Act κ ν F} {r : Rig.Act F} (h : Step P w a w') (ha : a.toRig = some r) :
    Rig.Step P.float w.rig r w'.rig := by
  obtain ⟨b, hb, hr⟩ := Option.bind_eq_some_iff.mp ha
  exact rigStep (h.toListener hb) hr

theorem Step.rig_eq {a : Act κ ν F} (h : Step P w a w') (ha : a.toRig = none) :
    w'.rig = w.rig := by
  cases hb : a.toListener with
  | none => exact congrArg Listener.System.rig (h.listener_eq hb)
  | some b =>
      have hl := h.toListener hb
      rw [Act.toRig, hb, Option.bind_some] at ha
      rw [World.rig, World.rig]
      generalize w'.listener = l at hl ⊢
      cases hl with
      | refused | resumed | dropped => rfl
      | dispatched | rig => cases ha

section Runs

variable {radio : Text} {powerMaxWatts : F} {x : Rigctld P.float}
  {tr : List (Coupled.Act P.float (Act κ ν F))}

/-- The relay and rigctld. -/
abbrev CoupledRun (P : Setup κ F) (radio : Text) (powerMaxWatts : F) (x : Rigctld P.float)
    (tr : List (Coupled.Act P.float (Act κ ν F))) (p : Coupled P.float (World κ ν F)) : Prop :=
  Run (Coupled.Step P.float (Step P) Act.toRig) (HandsOff World.rig)
    ⟨.start radio powerMaxWatts, x⟩ tr p

variable {p : Coupled P.float (World κ ν F)}

theorem coupled_rig_run (h : CoupledRun P radio powerMaxWatts x tr p) :
    Run (Coupled.Step P.float (Rig.Step P.float) some) (HandsOff id) ⟨.spawn, x⟩
      (tr.filterMap onRig) ⟨p.sys.rig, p.rigctld⟩ := by
  refine h.simulate (fun p => (⟨p.sys.rig, p.rigctld⟩ : Coupled P.float (Rig.World F))) onRig
    ?_ ?_
  · intro p a p' hs ha
    cases hs with
    | silent hs hl => simp only [hs.rig_eq hl]
    | act hs hl => simp [onRig, hl] at ha
    | turned => cases ha
  · intro p a p' b hands hs ha
    cases hs with
    | silent hs hl => simp [onRig, hl] at ha
    | act hs hl hx =>
        rw [onRig, hl] at ha
        cases ha
        exact ⟨trivial, .act (hs.toRig hl) rfl hx⟩
    | turned d =>
        cases ha
        exact ⟨hands, .turned d⟩

theorem coupled_relay_run (h : CoupledRun P radio powerMaxWatts x tr p) :
    Run (Step P) Always (.start radio powerMaxWatts) (tr.filterMap ofRelay) p.sys := by
  refine h.simulate Coupled.sys ofRelay ?_ ?_
  · intro p a p' hs ha
    cases hs with
    | silent | act => cases ha
    | turned => rfl
  · intro p a p' b _ hs ha
    cases hs with
    | silent hs | act hs =>
        cases ha
        exact ⟨trivial, hs⟩
    | turned => cases ha

/-- **A reply to a poll has come since the poll was asked.** -/
theorem served_since {s₁ s₂ : List (Act κ ν F)} {job : Job} {state : RigState F}
    (h : Run (Step P) Always (.start radio powerMaxWatts) (s₁ ++ .asked job :: s₂) w)
    (hr : (job, .ok (.state state)) ∈ w.listener.replies) :
    ∃ a ∈ s₂, ∃ conn, a.toRig = some (.served conn job (.ok (.state state))) := by
  have hans := (answered_run h).replies ▸ hr
  obtain ⟨m, m', hm, -, hask, -⟩ := h.step_at
  have hold := answered_run hm
  -- its number is new
  have hfresh : (job, .ok (.state state)) ∉ Rig.answers (toRig s₁) := fun hmem => by
    have hlt := hold.counts.fresh _ (hold.requested hmem)
    cases hask with
    | asked => exact Nat.lt_irrefl _ hlt
  rw [toRig_eq] at hans hfresh
  rw [List.filterMap_append, Rig.answers, List.filterMap_append] at hans
  have hmem := (List.mem_append.mp hans).resolve_left hfresh
  obtain ⟨r, hr, hanswer⟩ := List.mem_filterMap.mp hmem
  obtain ⟨a, ha, hrig⟩ := List.mem_filterMap.mp hr
  cases r with
  | served conn =>
      cases hanswer
      rcases List.mem_cons.mp ha with rfl | ha
      · cases hrig
      · exact ⟨a, ha, conn, hrig⟩
  | _ => cases hanswer

/-- What is seen of a trace, as the object that the actor and rigctld are. -/
def seen (tr : List (Coupled.Act P.float (Act κ ν F))) : List (Rig.Event P.float) :=
  (tr.filterMap onRig).filterMap Coupled.Act.seen

omit [DecidableEq κ] [DecidableEq ν] in
theorem seen_append (tr tr' : List (Coupled.Act P.float (Act κ ν F))) :
    seen (tr ++ tr') = seen tr ++ seen tr' := by
  rw [seen, List.filterMap_append, List.filterMap_append]
  rfl

omit [DecidableEq κ] [DecidableEq ν] in
theorem seen_served {a : Act κ ν F} {conn : Nat} {job : Job}
    {res : Except Rig.RigError (Rig.Reply F)} (ha : a.toRig = some (.served conn job res))
    (tr : List (Coupled.Act P.float (Act κ ν F))) :
    seen (.act a :: tr) = .ended job (.ok res) :: seen tr := by
  have hon : onRig (R := P.float) (.act a) = some (.act (.served conn job res)) := by
    rw [onRig, ha]
    rfl
  rw [seen, List.filterMap_cons, hon]
  rfl

/-- What a request that was dispatched asks for. -/
theorem asks_of_dispatched {c : κ} {click : Job}
    (h : CoupledRun P radio powerMaxWatts x tr p)
    (hd : .act (.listener (.dispatched c click)) ∈ tr) :
    ∃ freq mode, Asks (P.request c) freq mode ∧
      click.cmd = .setFreqMode freq (mode.resolve P.app.overrides) := by
  obtain ⟨u, v, rfl⟩ := List.append_of_mem hd
  obtain ⟨m, m', -, -, hs, -⟩ := h.step_at
  have htune : ∃ freq mode, Listener.tune P.app (P.request c) = .ok (freq, mode) ∧
      click.cmd = .setFreqMode freq mode := by
    cases hs with
    | silent hs | act hs =>
        cases hs with
        | listener hs =>
            cases hs with
            | dispatched _ ht => exact ⟨_, _, ht, rfl⟩
  obtain ⟨freq, mode, ht, hcmd⟩ := htune
  rcases Listener.tune_spec P.app (P.request c) with ⟨-, h'⟩ | ⟨-, -, h'⟩ | ⟨-, _, asked, ha, h'⟩
  · cases ht.symm.trans h'
  · cases ht.symm.trans h'
  · cases ht.symm.trans h'
    exact ⟨freq, asked, ha, hcmd⟩

/-- A reply that the loop has has come in the part of the run in which its poll was asked. -/
theorem served_in {tr₁ tr₂ : List (Coupled.Act P.float (Act κ ν F))} {job : Job}
    {state : RigState F} (h : CoupledRun P radio powerMaxWatts x (tr₁ ++ tr₂) p)
    (hasked : .act (.asked job) ∈ tr₂)
    (hr : (job, .ok (.state state)) ∈ p.sys.listener.replies) :
    ∃ u a v conn, tr₂ = u ++ .act a :: v ∧
      a.toRig = some (.served conn job (.ok (.state state))) := by
  obtain ⟨s₁, s₂, rfl⟩ := List.append_of_mem hasked
  have hrelay := coupled_relay_run h
  rw [← List.append_assoc, List.filterMap_append, List.filterMap_cons] at hrelay
  obtain ⟨a, ha, conn, hserved⟩ := served_since hrelay hr
  obtain ⟨b, hb, hba⟩ := List.mem_filterMap.mp ha
  cases b with
  | turned => cases hba
  | act a =>
      cases hba
      obtain ⟨u, v, rfl⟩ := List.append_of_mem hb
      exact ⟨s₁ ++ .act (.asked job) :: u, a, v, conn, by simp, hserved⟩

end Runs

/-! ### One click -/

def digState : RigState Nat := { freq := 28270000, mode := "PKTUSB".toList, power := none }

def digJob : Job := ⟨1, .poll⟩

def digTalk : List Rig.WireEvent :=
  [⟨.send "f".toList, .ok ()⟩, ⟨.readLine, .ok "28270000\n".toList⟩,
    ⟨.send "m".toList, .ok ()⟩, ⟨.readLine, .ok "PKTUSB\n".toList⟩,
    ⟨.readLine, .ok "2400\n".toList⟩, ⟨.send "\\get_level RFPOWER".toList, .ok ()⟩,
    ⟨.readLine, .ok "RPRT -11\n".toList⟩]

/-- A request is dispatched, and carried out. -/
def digClick : List (Act Unit Unit Nat) :=
  [.started, .listener (.dispatched () Listener.clickJob), rigAct (.connected 0),
    rigAct (.sent Listener.clickJob), rigAct (.received 0 Listener.clickJob)] ++
    Listener.clickTalk.map (fun e => rigAct (.wire 0 e))

/-- The rig is polled. -/
def digPoll : List (Act Unit Unit Nat) :=
  [.elapsed nanosPerSec, .asked digJob, rigAct (.sent digJob), rigAct (.received 0 digJob)] ++
    digTalk.map (fun e => rigAct (.wire 0 e)) ++ [rigAct (.served 0 digJob (.ok (.state digState)))]

def digActs : List (Act Unit Unit Nat) :=
  digClick ++ rigAct (.served 0 Listener.clickJob (.ok .done)) ::
    (digPoll ++ [.published digJob digState 0])

def digEnd : World Unit Unit Nat where
  listener :=
    { rig :=
        { (Rig.World.spawn : Rig.World Nat) with requests := 2, conns := 1, phase := .serving 0 }
      record := Listener.clickTalk.map (Listener.clickJob, ·) ++ digTalk.map (digJob, ·)
      replies := [(Listener.clickJob, .ok .done), (digJob, .ok (.state digState))]
      stage := Function.update (fun _ => .arrived) () (.setting Listener.clickJob) }
  poller :=
    { (Poller.World.start : Poller.World Nat) with
      ticker := .ticking
      worker := .spawned
      states := ⟨some digState, 1, false⟩ }
  ws :=
    { handle := (Ws.WsHandle.new "IC-7300".toList 100).broadcast Ws.wholeFormat digState 0
      shutdown := .new false
      conn := fun _ => .accepted }
  loop := .sleeping (2 * nanosPerSec)
  clock := nanosPerSec

theorem dig_run :
    Run (Step secondSetup) Always (.start "IC-7300".toList 100) digActs digEnd := by
  refine .cons trivial (.started rfl rfl) ?_
  refine .cons trivial (.listener (.dispatched rfl rfl rfl) trivial) ?_
  refine .cons trivial (.of_rig (.connected rfl) rfl trivial) ?_
  refine .cons trivial (.of_rig (.sent (l := []) rfl (by decide)) rfl trivial) ?_
  refine .cons trivial (.of_rig (.received rfl rfl) rfl trivial) ?_
  refine .cons trivial (.of_rig (.wire (q := .send _) rfl (.ok ())) rfl trivial) ?_
  refine .cons trivial (.of_rig (.wire (q := .readLine) rfl (.ok _)) rfl trivial) ?_
  refine .cons trivial (.of_rig (.wire (q := .send _) rfl (.ok ())) rfl trivial) ?_
  refine .cons trivial (.of_rig (.wire (q := .readLine) rfl (.ok _)) rfl trivial) ?_
  refine .cons trivial (.of_rig (.served rfl) rfl trivial) ?_
  refine .cons trivial (.elapsed _) ?_
  refine .cons trivial (.asked rfl rfl (Nat.le_refl _) (listen_of_rig (.requested _ rfl) rfl)) ?_
  refine .cons trivial (.of_rig (.sent (l := []) rfl (by decide)) rfl trivial) ?_
  refine .cons trivial (.of_rig (.received rfl rfl) rfl trivial) ?_
  refine .cons trivial (.of_rig (.wire (q := .send _) rfl (.ok ())) rfl trivial) ?_
  refine .cons trivial (.of_rig (.wire (q := .readLine) rfl (.ok _)) rfl trivial) ?_
  refine .cons trivial (.of_rig (.wire (q := .send _) rfl (.ok ())) rfl trivial) ?_
  refine .cons trivial (.of_rig (.wire (q := .readLine) rfl (.ok _)) rfl trivial) ?_
  refine .cons trivial (.of_rig (.wire (q := .readLine) rfl (.ok _)) rfl trivial) ?_
  refine .cons trivial (.of_rig (.wire (q := .send _) rfl (.ok ())) rfl trivial) ?_
  refine .cons trivial (.of_rig (.wire (q := .readLine) rfl (.ok _)) rfl trivial) ?_
  refine .cons trivial (.of_rig (.served rfl) rfl trivial) ?_
  exact .cons trivial (.published 0 rfl rfl (.tail _ (.head _))) .nil

/-- The transceiver after the click. -/
def clicked : Device secondSetup.float := (Rig.dialled.setFreq 28270000).setMode .pktUsb

theorem dig_rigctld : Run Rigctld.Moves Always (⟨Rig.dialled, []⟩ : Rigctld secondSetup.float)
    (digActs.filterMap Act.toRig) ⟨clicked, []⟩ := by
  have hmode : Rig.Obeys clicked "m".toList ["PKTUSB".toList, "2400".toList] clicked := .mode rfl
  have hrefuses : Rig.Refuses "RPRT -11".toList := ⟨by decide, -11, by decide, rfl⟩
  refine .cons trivial (.apart trivial) ?_
  refine .cons trivial .connected ?_
  refine .cons trivial (.apart trivial) ?_
  refine .cons trivial (.apart trivial) ?_
  refine .cons trivial (.wire (.sent (.setFreq rfl))) ?_
  refine .cons trivial (.wire (.read (r := "RPRT 0".toList) rfl)) ?_
  refine .cons trivial (.wire (.sent (.setMode rfl))) ?_
  refine .cons trivial (.wire (.read (r := "RPRT 0".toList) rfl)) ?_
  refine .cons trivial (.apart trivial) ?_
  refine .cons trivial (.apart trivial) ?_
  refine .cons trivial (.apart trivial) ?_
  refine .cons trivial (.apart trivial) ?_
  refine .cons trivial (.wire (.sent (.freq rfl))) ?_
  refine .cons trivial (.wire (.read (r := "28270000".toList) rfl)) ?_
  refine .cons trivial (.wire (.sent hmode)) ?_
  refine .cons trivial (.wire (.read (r := "PKTUSB".toList) rfl)) ?_
  refine .cons trivial (.wire (.read (r := "2400".toList) rfl)) ?_
  refine .cons trivial (.wire (.sent (.refused (r := "RPRT -11".toList) hrefuses))) ?_
  refine .cons trivial (.wire (.read (r := "RPRT -11".toList) rfl)) ?_
  exact .cons trivial (.apart trivial) .nil

end WavelogRelay.Relay
