import WavelogRelay.Relay.Rest
import WavelogRelay.Rig.Health

/-!
# Relay — no fault is for good

Whatever has happened to the rig, to Wavelog and to the browsers, the relay is back as soon as
each does its part once: rigctld accepts a connection and answers a poll, and Wavelog accepts a
POST.

* `exists_serving`, `exists_served`: the actor connects, and carries out a command.
* `exists_pushed`: the worker sees to it that Wavelog has the snapshot.
* `of_rig_run`, `of_worker_run`: what these do, the relay does.
* `help`: what others do for the relay in a run.
* `recovers`: so it comes back from every state, if it is let alone, with that help and no more.
-/

namespace WavelogRelay
open Library Dialogue

/-! ### The rig -/

namespace Rig

variable {F : Type} {R : F32 F} {w : World F} {es : List WireEvent}

/-- A step of the actor, when rigctld does its part in the talk `es`. -/
def Act.Helped (es : List WireEvent) : Act F → Prop
  | .sent _ | .connected _ | .received _ _ | .served _ _ _ | .woke _ => True
  | .wire _ e => e ∈ es
  | _ => False

/-- **The actor connects** when it has slept. -/
theorem exists_serving (R : F32 F) (es : List WireEvent) (hp : w.pending = [])
    (hc : w.phase ≠ .connecting) (hs : w.phase ≠ .stopped) :
    ∃ tr x conn, Run (Step R) (fun _ a => a.Helped es) w tr x ∧
      (tr = [] ∨ ∃ delay, tr = [.woke delay, .connected w.conns]) ∧
      x.pending = [] ∧ x.phase = .serving conn ∧ x.handles = w.handles := by
  obtain ⟨hw, hch, hph⟩ := pending_eq_nil.mp hp
  cases h : w.phase with
  | connecting => exact absurd h hc
  | stopped => exact absurd h hs
  | running conn job rest =>
      rw [h] at hph
      cases hph
  | serving conn => exact ⟨[], w, conn, .nil, .inl rfl, hp, h, rfl⟩
  | sleeping delay =>
      have hwoke : Step R w (.woke delay) { w with phase := .connecting } := .woke h
      exact ⟨_, _, w.conns, (Run.nil.extend hwoke trivial).extend (.connected rfl) trivial,
        .inr ⟨delay, rfl⟩, pending_eq_nil.mpr ⟨hw, hch, rfl⟩, rfl, rfl⟩

/-- A talk is carried out over the connection. -/
theorem exists_talk {p p' : Wire (Except RigError (Reply F))} {es' : List WireEvent} {conn : Nat}
    {job : Job} (h : Talk p es' p') (hes : es' ⊆ es) (hw : w.phase = .running conn job p) :
    Run (Step R) (fun _ a => a.Helped es) w (es'.map (.wire conn))
      { w with phase := .running conn job p' } := by
  induction h generalizing w with
  | nil =>
      rw [← hw]
      exact .nil
  | @cons q k a es' p _ ih =>
      obtain ⟨hmem, hrest⟩ := List.cons_subset.mp hes
      exact .cons hmem (.wire hw a) (ih hrest rfl)

/-- **A command is carried out**, when there is no other. -/
theorem exists_served {conn : Nat} {job : Job} {reply : Except RigError (Reply F)}
    (h : Talk (handleCommand R job.cmd) es (.done (.ok reply))) (hw : w.waiting = [job])
    (hc : w.chan = []) (hp : w.phase = .serving conn) :
    Run (Step R) (fun _ a => a.Helped es) w
      ([.sent job] ++ [.received conn job] ++ es.map (.wire conn) ++ [.served conn job reply])
      { w with
        waiting := []
        chan := []
        phase := .serving conn
        health := w.health.recordSuccess.2 } := by
  have hroom : w.chan.length < channelCapacity := hc ▸ Nat.zero_lt_succ _
  have hsent : Step R w (.sent job) { w with waiting := [], chan := [job] } := by
    have hs := Step.sent (R := R) (l := []) hw hroom
    rwa [hc] at hs
  have hrun := ((Run.nil.extend hsent (C := fun _ a => a.Helped es) trivial).extend
    (.received hp rfl) trivial).trans (exists_talk h (List.Subset.refl _) rfl)
  exact hrun.extend (.served rfl) trivial

/-- It has one reply. -/
theorem answers_served (es : List WireEvent) (conn : Nat) (job : Job)
    (reply : Except RigError (Reply F)) :
    answers ([.sent job] ++ [.received conn job] ++ es.map (.wire conn) ++
      [.served conn job reply]) = [(job, reply)] := by
  have hnone : (es.map (Act.wire conn : WireEvent → Act F)).filterMap Act.answer = [] := by
    rw [List.filterMap_map]
    exact List.filterMap_eq_nil_iff.mpr fun _ _ => rfl
  rw [answers, List.filterMap_append, List.filterMap_append, hnone]
  rfl

end Rig

/-! ### The worker -/

namespace Poller
open Wavelog (HttpOutcome)

variable {F : Type} {R : Rig.F32 F} {w : World F} {tr : List (Act F)}

/-- A step of the worker, when Wavelog does its part. -/
def Act.Helped : Act F → Prop
  | .skipped _ | .started _ _ | .pushed _ _ (.ok ()) => True
  | _ => False

/-- The answers of Wavelog. -/
def Act.posted : Act F → List HttpOutcome
  | .pushed _ attempts _ | .cancelled _ attempts =>
      (attempts.map Attempt.met).filter fun met => met ≠ .failed
  | _ => []

/-- **Wavelog has a new snapshot**, or one of the same bin, when the worker has seen it. -/
theorem exists_pushed {state : Rig.RigState F} (hset : Settles R tr w) (hw : w.worker = .idle)
    (hnew : w.statesSeen ≠ w.states.version) (hv : w.states.value = some state) :
    ∃ tr' q, Run (Step R) (fun _ a => a.Helped) w tr' q ∧
      (tr'.flatMap Act.posted).Sublist [.answered 200 none] ∧ q.worker = .idle ∧
      q.statesSeen = q.states.version ∧ q.ticker = w.ticker ∧
      ∃ p, lastSuccess (tr ++ tr') = some p ∧ SameBin R p.state state := by
  have hc : w.states.changed w.statesSeen = some (true, w.states.version) :=
    if_pos (Ne.symm hnew)
  cases hskip : w.deduper.shouldSkip R state w.clock with
  | true =>
      have hs : Step R w (.skipped (w.snapshot state w.clock)) (w.evaluate w.clock) :=
        .skipped hw hc hv (Nat.le_refl _) hskip
      obtain ⟨p, hp, hbin, -⟩ := (skipped_iff hset hs rfl).mp rfl
      refine ⟨_, _, Run.nil.extend hs trivial, List.nil_sublist _, hw, rfl, rfl, p, ?_, hbin⟩
      simpa [lastSuccess, Act.success] using hp
  | false =>
      have hs : Step R w (.started (w.snapshot state w.clock) (w.deduper.classify R state)) _ :=
        .started hw hc hv (Nat.le_refl _) hskip
      have hpushed {x : World F} {s : Snapshot F} {kind : PushKind}
          (hx : x.worker = .pushing s kind) :
          Step R x (.pushed s [⟨.answered 200 none, true⟩] (.ok ()))
            { x with worker := .idle, deduper := afterPush R x.deduper s (.ok ()) } :=
        .pushed hx (fun x hx _ => by rw [List.mem_singleton.mp hx]) rfl
      have hrun := (Run.nil.extend (C := fun _ (a : Act F) => a.Helped) hs trivial).extend
        (hpushed rfl) trivial
      refine ⟨_, _, hrun, List.Sublist.refl _, rfl, rfl, rfl, w.snapshot state w.clock, ?_, rfl,
        rfl, rfl⟩
      rw [lastSuccess, ← List.append_assoc, successes_snoc]
      exact List.getLast?_concat

end Poller

/-! ### The relay -/

namespace Relay
open Rig (Job)
open Wavelog (HttpOutcome)

variable {κ ν F : Type}

/-- A step that needs no answer, or one by which the clock, rigctld in the talk `es`, or Wavelog
does its part. -/
def Act.Helped (es : List Rig.WireEvent) : Act κ ν F → Prop
  | .elapsed _ | .asked _ => True
  | .listener (.rig a) => a.Unaided ∨ a.Helped es
  | .worker a => a.Unaided ∨ a.Helped
  | a => a.Unaided

/-- What others do for the relay, when they do their part. -/
inductive Help where
  /-- rigctld accepts a connection. -/
  | connection
  /-- A tick polls. -/
  | poll
  /-- The connection takes a line, or has one. -/
  | told (e : Rig.WireEvent)
  /-- Wavelog answers a POST. -/
  | posted (met : HttpOutcome)

/-- A connection that fails tells nothing. -/
def heard : Rig.WireEvent → List Help
  | ⟨.send _, .error _⟩ | ⟨.readLine, .error _⟩ => []
  | e => [.told e]

def Act.help : Act κ ν F → List Help
  | .listener (.rig (.connected _)) => [.connection]
  | .listener (.rig (.wire _ e)) => heard e
  | .asked _ => [.poll]
  | .worker a => a.posted.map .posted
  | _ => []

/-- All the help that a relay has got, in order. -/
def help (tr : List (Act κ ν F)) : List Help := tr.flatMap Act.help

@[simp] theorem help_append (tr tr' : List (Act κ ν F)) :
    help (tr ++ tr') = help tr ++ help tr' := List.flatMap_append

variable {es : List Rig.WireEvent} {w : World κ ν F} {a : Act κ ν F}

theorem heard_sublist (es : List Rig.WireEvent) :
    (es.flatMap heard).Sublist (es.map .told) := by
  induction es with
  | nil => exact List.Sublist.refl _
  | cons e es ih =>
      rw [List.flatMap_cons, List.map_cons, ← List.singleton_append]
      refine List.Sublist.append ?_ ih
      match e with
      | ⟨.send _, .error _⟩ | ⟨.readLine, .error _⟩ => exact List.nil_sublist _
      | ⟨.send _, .ok _⟩ | ⟨.readLine, .ok _⟩ => exact List.Sublist.refl _

theorem Act.Unaided.help (h : a.Unaided) : a.help = [] := by
  cases a with
  | listener b =>
      cases b with
      | rig r =>
          cases r with
          | connected => exact h.elim
          | wire conn e =>
              match e, h with
              | ⟨.send _, .error _⟩, _ | ⟨.readLine, .error _⟩, _ => rfl
          | _ => rfl
      | _ => rfl
  | asked => exact h.elim
  | worker b =>
      cases b with
      | pushed s attempts res =>
          have hnone :
              (attempts.map Poller.Attempt.met).filter (fun met => met ≠ .failed) = [] := by
            refine List.filter_eq_nil_iff.mpr fun met hmet => ?_
            obtain ⟨x, hx, rfl⟩ := List.mem_map.mp hmet
            simp [h x hx]
          exact congrArg (List.map Help.posted) hnone
      | cancelled => exact h.elim
      | _ => rfl
  | _ => rfl

theorem Act.Unaided.helped (es : List Rig.WireEvent) (h : a.Unaided) : a.Helped es := by
  cases a with
  | listener b =>
      cases b with
      | rig => exact .inl h
      | resumed => trivial
      | refused | dispatched | dropped => exact h.elim
  | worker => exact .inl h
  | started | published | failed => trivial
  | elapsed | asked | returned | stopped | notified | shutdown | senderDropped => exact h.elim
  | conn => exact h

theorem Act.Helped.quiet (h : a.Helped es) : a.Quiet := by
  cases a with
  | shutdown | senderDropped => exact h.elim
  | _ => trivial

/-- The steps of the actor. -/
def ofRig (tr : List (Rig.Act F)) : List (Act κ ν F) := tr.map fun a => .listener (.rig a)

theorem ofRig_append (tr tr' : List (Rig.Act F)) :
    (ofRig (tr ++ tr') : List (Act κ ν F)) = ofRig tr ++ ofRig tr' := List.map_append

theorem help_ofRig_wire (es : List Rig.WireEvent) (conn : Nat) :
    help (ofRig (es.map (.wire conn)) : List (Act κ ν F)) = es.flatMap heard := by
  rw [help, ofRig, List.map_map, List.flatMap_map]
  rfl

theorem publications_ofRig (tr : List (Rig.Act F)) :
    publications (ofRig tr : List (Act κ ν F)) = [] := by
  simp [publications, ofRig, Act.publication]

theorem toPoller_ofRig (tr : List (Rig.Act F)) :
    toPoller (ofRig tr : List (Act κ ν F)) = [] := by
  simp [toPoller, ofRig, Act.toPoller]

variable [DecidableEq κ] [DecidableEq ν] {P : Setup κ F}

theorem help_of_unaided {tr : List (Act κ ν F)} {w' : World κ ν F}
    (h : Run (Step P) (fun _ a => a.Unaided) w tr w') : help tr = [] := by
  refine h.invariant (I := fun tr _ => help tr = []) rfl fun _ ih ha _ => ?_
  rw [help_append, ih]
  exact List.flatMap_singleton .. |>.trans ha.help

/-- What the actor does, the relay does. -/
theorem of_rig_run {tr : List (Rig.Act F)} {x : Rig.World F}
    (h : Run (Rig.Step P.float) (fun _ a => a.Helped es) w.listener.rig tr x) :
    ∃ record, Run (Step P) (fun _ a => a.Helped es) w (ofRig tr)
      { w with
        listener :=
          { w.listener with
            rig := x
            record
            replies := w.listener.replies ++ Rig.answers tr } } := by
  induction h with
  | nil => exact ⟨w.listener.record, by simpa [Rig.answers, ofRig] using Run.nil⟩
  | @snoc tr x x' a _ ha hs ih =>
      obtain ⟨record, hrun⟩ := ih
      have hgiven : a.abandonment = none := by
        cases a with
        | abandoned => exact ha.elim
        | _ => rfl
      have hallows (m : World κ ν F) : m.Allows (.rig a) := by
        cases a with
        | requested | abandoned | handlesDropped => exact ha.elim
        | _ => trivial
      have hone := Step.of_rig (P := P) (w := { w with listener := { w.listener with
        rig := x, record, replies := w.listener.replies ++ Rig.answers tr } }) hs hgiven (hallows _)
      refine ⟨record ++ (Rig.entry x a).toList, ?_⟩
      rw [ofRig, List.map_append, Rig.answers_snoc, ← List.append_assoc]
      exact hrun.extend hone (.inr ha)

/-- What the worker does, the relay does. -/
theorem of_worker_run (es : List Rig.WireEvent) {tr : List (Poller.Act F)} {q : Poller.World F}
    (h : Run (Poller.Step P.float) (fun _ a => a.Helped) w.poller tr q) :
    Run (Step P) (fun _ a => a.Helped es) w (tr.map .worker) { w with poller := q } := by
  induction h with
  | nil => exact .nil
  | @snoc tr q q' a _ ha hs ih =>
      have hworker : ofWorker a := by
        cases a with
        | skipped | started | pushed => trivial
        | _ => exact ha.elim
      rw [List.map_append]
      exact ih.extend (.worker (w := { w with poller := q }) hs hworker) (.inr ha)

section Recovered

variable {radio : Text} {powerMaxWatts : F} {tr : List (Act κ ν F)}

/-- The connections neither publish nor push. -/
theorem silent_conns {w' : World κ ν F} (h : Run (Step P) (fun _ a => a.OfConn) w tr w') :
    publications tr = [] ∧ toPoller tr = [] := by
  induction h with
  | nil => exact ⟨rfl, rfl⟩
  | @snoc tr _ _ a _ ha _ ih =>
      cases a with
      | conn => simpa [publications, toPoller, Act.publication, Act.toPoller] using ih
      | _ => exact ha.elim

/-- **The relay polls**: the actor is connected, and the poll is its only request. -/
theorem exists_asked (es : List Rig.WireEvent) (hc : w.Calm) (hidle : w.Idle) :
    ∃ tr' m job conn, Run (Step P) (fun _ a => a.Helped es) w tr' m ∧ publications tr' = [] ∧
      toPoller tr' = [] ∧ m.poller = w.poller ∧ m.listener.stage = w.listener.stage ∧
      m.loop = .polling job ∧ job.cmd = .poll ∧ m.listener.rig.waiting = [job] ∧
      m.listener.rig.chan = [] ∧ m.listener.rig.phase = .serving conn ∧
      (help tr').Sublist [.connection, .poll] := by
  have hst : w.listener.rig.phase ≠ .stopped := fun h => by
    cases hc.up.handles.symm.trans (hc.live.stopped h).1
  obtain ⟨tr, x, conn, hrun, htr, hpend, hphase, hhandles⟩ :=
    Rig.exists_serving P.float es hidle.pending hidle.actor hst
  obtain ⟨record, hrun⟩ := of_rig_run (P := P) hrun
  obtain ⟨hwait, hchan, -⟩ := Rig.pending_eq_nil.mp hpend
  obtain ⟨wake, hloop⟩ : ∃ wake, w.loop = .sleeping wake := by
    cases hl : w.loop with
    | sleeping wake => exact ⟨wake, rfl⟩
    | polling job => exact absurd hl (hidle.sleeping job)
  have hasked := (hrun.extend (.elapsed wake) trivial).extend
    (.asked hidle.ticking hloop (Nat.le_add_left wake w.clock)
      (listen_of_rig (.requested _ (hhandles.trans hc.up.handles)) rfl)) trivial
  refine ⟨_, _, ⟨x.requests, .poll⟩, conn, hasked, ?_, ?_, rfl, rfl, rfl, rfl, ?_, hchan, hphase,
    ?_⟩
  · rw [publications, List.filterMap_append, List.filterMap_append]
    exact congrArg (· ++ [] ++ []) (publications_ofRig _)
  · rw [toPoller, List.filterMap_append, List.filterMap_append]
    exact congrArg (· ++ [] ++ []) (toPoller_ofRig _)
  · rw [hwait]
    rfl
  · rcases htr with rfl | ⟨delay, rfl⟩
    · exact List.sublist_cons_self _ _
    · exact List.Sublist.refl _

/-- **The relay publishes** the state that rigctld tells. -/
theorem exists_published {state : Rig.RigState F} {job : Job} {conn : Nat}
    {failures : List Rig.DegradedKind}
    (htalk : Talk (Rig.handleCommand P.float job.cmd) es (.done (.ok (.ok (.state state)))))
    (now : UInt64) (ht : w.poller.ticker = .ticking) (hl : w.loop = .polling job)
    (hwait : w.listener.rig.waiting = [job]) (hchan : w.listener.rig.chan = [])
    (hphase : w.listener.rig.phase = .serving conn)
    (hhealth : w.listener.rig.health.Reflects failures) :
    ∃ tr' m, Run (Step P) (fun _ a => a.Helped es) w tr' m ∧ publications tr' = [(state, now)] ∧
      toPoller tr' = [.published state] ∧
      m.poller = { w.poller with states := w.poller.states.send (some state) } ∧
      m.loop = .sleeping (m.clock + P.tickInterval) ∧ m.listener.rig.pending = [] ∧
      m.listener.rig.phase = .serving conn ∧ m.listener.stage = w.listener.stage ∧
      m.listener.rig.health.tx.value = .healthy ∧ (help tr').Sublist (es.map .told) := by
  obtain ⟨record, hrun⟩ := of_rig_run (P := P) (Rig.exists_served htalk hwait hchan hphase)
  rw [Rig.answers_served] at hrun
  have hmem : (job, .ok (.state state)) ∈
      w.listener.replies ++ [(job, Except.ok (Rig.Reply.state state))] := by simp
  have hhealthy : w.listener.rig.health.recordSuccess.2.tx.value = .healthy :=
    hhealth.completed.published.trans (hhealth.completed.healthy.mpr rfl)
  refine ⟨_, _, hrun.extend (.published now ht hl hmem) trivial, ?_, ?_, rfl, ?_, rfl, rfl, rfl,
    hhealthy, ?_⟩
  · rw [publications, List.filterMap_append]
    exact congrArg (· ++ [(state, now)]) (publications_ofRig _)
  · rw [toPoller, List.filterMap_append]
    exact congrArg (· ++ [.published state]) (toPoller_ofRig _)
  · rw [World.sleep, hhealthy]
    rfl
  · rw [help_append, ofRig_append, help_append, ofRig_append, help_append, help_ofRig_wire]
    simpa [help, ofRig, Act.help] using heard_sublist es

/-- The relay works again: it has published `state`, and is at rest until its next tick. -/
structure Recovered (P : Setup κ F) (radio : Text) (powerMaxWatts : F) (state : Rig.RigState F)
    (now : UInt64) (tr : List (Act κ ν F)) (w : World κ ν F) : Prop where
  resting : w.Resting
  upToDate : UpToDate P radio powerMaxWatts tr w
  published : (publications tr).getLast? = some (state, now)
  healthy : w.listener.rig.health.tx.value = .healthy
  cadence : w.loop = .sleeping (w.clock + P.tickInterval)
  wavelog : ∃ p, Poller.lastSuccess (toPoller tr) = some p ∧ Poller.SameBin P.float p.state state

theorem poll_talk :
    Talk (Rig.handleCommand secondSetup.float .poll) pollTalk
      (.done (.ok (.ok (.state Ws.usbState)))) := by
  refine .cons (q := Rig.Ask.send _) ?_
  refine .cons (q := Rig.Ask.readLine) ?_
  refine .cons (q := Rig.Ask.send _) ?_
  refine .cons (q := Rig.Ask.readLine) ?_
  refine .cons (q := Rig.Ask.readLine) ?_
  refine .cons (q := Rig.Ask.send _) ?_
  refine .cons (q := Rig.Ask.readLine) ?_
  exact .nil

end Recovered

end Relay

end WavelogRelay
