import Mathlib.Data.List.Nodup
import WavelogRelay.Library.Since
import WavelogRelay.Rig.Exchange
import WavelogRelay.Rig.Progress

/-!
# Rig — the actor is a linearizable server

What has happened in a run, read off its acts: the requests, their results, the order in which
they went through the channel, and the services.  A `Service` is one command, from its leaving the
channel to its result, with all it has said on its connection.

* `Counts.step`, `Order.step`, `Services.step`: what each step keeps.
* `linearizable`: the headline.
-/

namespace WavelogRelay.Rig
open Library Dialogue

variable {F : Type}

/-! ### What has happened -/

def Act.request : Act F → Option Job
  | .requested job => some job
  | _ => none

def Act.abandonment : Act F → Option Job
  | .abandoned job => some job
  | _ => none

def Act.sending : Act F → Option Job
  | .sent job => some job
  | _ => none

/-- The request that leaves the channel. -/
def Act.leaving : Act F → Option Job
  | .received _ job | .drained job => some job
  | _ => none

/-- A request and the result it gets. -/
def Act.answer : Act F → Option (Job × Except RigError (Reply F))
  | .served _ job res => some (job, res)
  | .lost _ job _ | .drained job => some (job, .error .disconnected)
  | _ => none

/-- The event on the connection `conn`. -/
def Act.event (conn : Nat) : Act F → Option WireEvent
  | .wire c e => if c = conn then some e else none
  | _ => none

def Act.isService : Act F → Bool
  | .received .. | .wire .. | .served .. | .lost .. => true
  | _ => false

section History

variable (tr : List (Act F))

def requested : List Job := tr.filterMap Act.request

def abandoned : List Job := tr.filterMap Act.abandonment

def sent : List Job := tr.filterMap Act.sending

def left : List Job := tr.filterMap Act.leaving

def answers : List (Job × Except RigError (Reply F)) := tr.filterMap Act.answer

def eventsOn (conn : Nat) : List WireEvent := tr.filterMap (Act.event conn)

def services : List (Act F) := tr.filter Act.isService

end History

section Snoc

variable (tr : List (Act F)) (a : Act F)

@[simp] theorem requested_snoc : requested (tr ++ [a]) = requested tr ++ a.request.toList :=
  filterMap_snoc _ _ _

@[simp] theorem abandoned_snoc : abandoned (tr ++ [a]) = abandoned tr ++ a.abandonment.toList :=
  filterMap_snoc _ _ _

@[simp] theorem sent_snoc : sent (tr ++ [a]) = sent tr ++ a.sending.toList := filterMap_snoc _ _ _

@[simp] theorem left_snoc : left (tr ++ [a]) = left tr ++ a.leaving.toList := filterMap_snoc _ _ _

@[simp] theorem answers_snoc : answers (tr ++ [a]) = answers tr ++ a.answer.toList :=
  filterMap_snoc _ _ _

theorem services_snoc : services (tr ++ [a]) = services tr ++ [a].filter Act.isService :=
  List.filter_append _ _

end Snoc

/-! ### Every request has one result -/

variable {R : F32 F} {tr : List (Act F)} {w w' : World F} {a : Act F}

/-- The requests are answered, abandoned or pending. -/
structure Counts (tr : List (Act F)) (w : World F) : Prop where
  fresh : ∀ job ∈ requested tr, job.id < w.requests
  nodup : (requested tr).Nodup
  balance : ∀ job, ((answers tr).map Prod.fst).count job + (abandoned tr).count job +
    (w.waiting.count job + w.chan.count job + w.phase.jobs.count job) = (requested tr).count job

theorem Counts.spawn : Counts [] (.spawn : World F) :=
  ⟨fun _ h => (by cases h), List.Pairwise.nil, fun _ => rfl⟩

theorem Counts.of_eq (h : Counts tr w) (hr : w'.requests = w.requests) (ha : a.request = none)
    (hb : ∀ job, (a.answer.toList.map Prod.fst).count job + a.abandonment.toList.count job +
      (w'.waiting.count job + w'.chan.count job + w'.phase.jobs.count job) =
        w.waiting.count job + w.chan.count job + w.phase.jobs.count job) :
    Counts (tr ++ [a]) w' := by
  refine ⟨by simpa [ha, hr] using h.fresh, by simpa [ha] using h.nodup, fun job => ?_⟩
  have hold := h.balance job
  have hnew := hb job
  simp only [answers_snoc, abandoned_snoc, requested_snoc, List.map_append, List.count_append, ha,
    Option.toList_none, List.count_nil]
  omega

theorem Counts.step (h : Counts tr w) (hs : Step R w a w') : Counts (tr ++ [a]) w' := by
  cases hs with
  | requested cmd hh =>
      have hnew : (⟨w.requests, cmd⟩ : Job) ∉ requested tr :=
        fun hmem => Nat.lt_irrefl _ (h.fresh _ hmem)
      refine ⟨fun job hjob => ?_, ?_, fun job => ?_⟩
      · simp only [requested_snoc, Act.request, Option.toList_some, List.mem_append,
          List.mem_singleton] at hjob
        rcases hjob with hjob | rfl
        · exact Nat.lt_succ_of_lt (h.fresh job hjob)
        · exact Nat.lt_succ_self _
      · simpa [Act.request, List.nodup_append] using
          ⟨h.nodup, fun job hjob heq => hnew (heq ▸ hjob)⟩
      · have := h.balance job
        simp [Act.request, Act.answer, Act.abandonment]
        omega
  | abandoned hw =>
      refine h.of_eq rfl rfl fun job => ?_
      simp [hw, Act.answer, Act.abandonment, List.count_cons]
      omega
  | sent hw _ =>
      refine h.of_eq rfl rfl fun job => ?_
      simp [hw, Act.answer, Act.abandonment, List.count_cons]
      omega
  | handlesDropped => exact h.of_eq rfl rfl fun job => by simp [Act.answer, Act.abandonment]
  | received hp hchan =>
      refine h.of_eq rfl rfl fun job => ?_
      simp [hp, hchan, Phase.jobs, Act.answer, Act.abandonment, List.count_cons]
      omega
  | wire hp =>
      exact h.of_eq rfl rfl fun job => by simp [hp, Phase.jobs, Act.answer, Act.abandonment]
  | served hp =>
      refine h.of_eq rfl rfl fun job => ?_
      simp [hp, Phase.jobs, Act.answer, Act.abandonment]
      omega
  | lost hp =>
      refine h.of_eq rfl rfl fun job => ?_
      simp [hp, World.failed, Phase.jobs, Act.answer, Act.abandonment]
      omega
  | drained hp hchan =>
      refine h.of_eq rfl rfl fun job => ?_
      simp [hp, hchan, Phase.jobs, Act.answer, Act.abandonment, List.count_cons]
      omega
  | connected hp | connectFailed hp | woke hp | stoppedServing hp | stoppedSleeping hp =>
      exact h.of_eq rfl rfl fun job => by
        simp [hp, World.failed, Phase.jobs, Act.answer, Act.abandonment]

/-! ### First in, first out -/

/-- What has left the channel, and what has been answered, in the order it was sent. -/
structure Order (tr : List (Act F)) (w : World F) : Prop where
  left : left tr ++ w.chan = sent tr
  answers : (answers tr).map Prod.fst ++ w.phase.jobs = Rig.left tr

theorem Order.spawn : Order [] (.spawn : World F) := ⟨rfl, rfl⟩

theorem Order.step (h : Order tr w) (hs : Step R w a w') : Order (tr ++ [a]) w' := by
  obtain ⟨hl, ha⟩ := h
  cases hs with
  | sent => exact ⟨by simp [Act.leaving, Act.sending, ← hl], by simpa [Act.leaving, Act.answer]⟩
  | received hp hchan =>
      rw [hchan] at hl
      refine ⟨by simpa [Act.leaving, Act.sending] using hl, ?_⟩
      simp [Act.leaving, Act.answer, Phase.jobs, ← ha, hp]
  | drained hp hchan =>
      rw [hchan] at hl
      refine ⟨by simpa [Act.leaving, Act.sending] using hl, ?_⟩
      simp [Act.leaving, Act.answer, Phase.jobs, ← ha, hp]
  | wire hp | served hp | lost hp =>
      refine ⟨by simpa [Act.leaving, Act.sending, World.failed] using hl, ?_⟩
      simp [Act.leaving, Act.answer, Phase.jobs, World.failed, ← ha, hp]
  | connected hp | connectFailed hp | woke hp | stoppedServing hp | stoppedSleeping hp =>
      refine ⟨by simpa [Act.leaving, Act.sending, World.failed] using hl, ?_⟩
      simp [Act.leaving, Act.answer, Phase.jobs, World.failed, ← ha, hp]
  | requested | abandoned | handlesDropped =>
      exact ⟨by simpa [Act.leaving, Act.sending], by simpa [Act.leaving, Act.answer]⟩

/-! ### Services -/

/-- One command, from its leaving the channel: what it has said on its connection, which is a talk
of `handleCommand`, and its result once it has ended. -/
structure Service (R : F32 F) where
  conn : Nat
  job : Job
  events : List WireEvent
  result : Option (Except IoError (Except RigError (Reply F)))
  talk : ∃ rest, Talk (handleCommand R job.cmd) events rest ∧ ∀ res ∈ result, rest = .done res

/-- The act that ends a command. -/
def closing (conn : Nat) (job : Job) : Except IoError (Except RigError (Reply F)) → Act F
  | .ok res => .served conn job res
  | .error e => .lost conn job e

namespace Service

def acts (s : Service R) : List (Act F) :=
  .received s.conn s.job ::
    (s.events.map (.wire s.conn) ++ (s.result.map (closing s.conn s.job)).toList)

/-- A command that has just left the channel. -/
def start (R : F32 F) (conn : Nat) (job : Job) : Service R :=
  ⟨conn, job, [], none, _, .nil, fun _ h => by cases h⟩

theorem orderly (s : Service R) : Orderly s.job.cmd s.events := by
  obtain ⟨rest, htalk, -⟩ := s.talk
  have hnil : Orderly s.job.cmd [] := ⟨List.nil_prefix, fun _ _ _ h => by cases h⟩
  simpa using (htalk.keeps (fun a h hq => h.ask a hq) (handleCommand_finished R _) hnil).1

theorem finished (s : Service R) {res : Except IoError (Except RigError (Reply F))}
    (h : s.result = some res) : Finished s.job.cmd res s.events := by
  obtain ⟨rest, htalk, hres⟩ := s.talk
  obtain rfl := hres res h
  have hwp := (htalk.keeps (P := fun _ => True) (fun _ _ _ => trivial)
    (handleCommand_finished R _) trivial).2
  simpa using hwp

theorem leaving_acts (s : Service R) : s.acts.filterMap Act.leaving = [s.job] := by
  have hend : (s.result.map (closing s.conn s.job)).toList.filterMap Act.leaving = [] := by
    rcases s.result with _ | e | res <;> rfl
  simp [acts, Act.leaving, hend, List.filterMap_map, Function.comp_def]

theorem event_acts (s : Service R) (conn : Nat) :
    s.acts.filterMap (Act.event conn) = if s.conn = conn then s.events else [] := by
  have hend : (s.result.map (closing s.conn s.job)).toList.filterMap (Act.event conn) = [] := by
    rcases s.result with _ | e | res <;> rfl
  simp only [acts, List.filterMap_cons, Act.event, List.filterMap_append, hend, List.append_nil,
    List.filterMap_map, Function.comp_def]
  split <;> simp

theorem of_served_mem (s : Service R) {conn : Nat} {job : Job} {res : Except RigError (Reply F)}
    (h : .served conn job res ∈ s.acts) : s.job = job ∧ s.result = some (.ok res) := by
  simp only [acts, List.mem_cons, List.mem_append, List.mem_map, Option.mem_toList,
    Option.map_eq_some_iff, reduceCtorEq, and_false, exists_false, false_or] at h
  obtain ⟨r, hr, hclose⟩ := h
  cases r with
  | error e => cases hclose
  | ok r =>
      cases hclose
      exact ⟨rfl, hr⟩

end Service

/-- How the services of a run are tied to where the actor is. -/
inductive Tied (R : F32 F) : List (Service R) → Phase F → Prop where
  | idle {ss : List (Service R)} {phase : Phase F} (hp : phase.jobs = [])
      (hs : ∀ s ∈ ss, s.result.isSome) : Tied R ss phase
  | running {ss : List (Service R)} {s : Service R} {rest : Wire (Except RigError (Reply F))}
      (hs : ∀ s ∈ ss, s.result.isSome) (hnone : s.result = none)
      (htalk : Talk (handleCommand R s.job.cmd) s.events rest) :
      Tied R (ss ++ [s]) (.running s.conn s.job rest)

def Services (R : F32 F) (tr : List (Act F)) (w : World F) : Prop :=
  ∃ ss : List (Service R), services tr = ss.flatMap Service.acts ∧ Tied R ss w.phase

/-- An act that is no service, where the actor carries out no command before or after it. -/
theorem Services.other (h : Services R tr w) (ha : a.isService = false)
    (hp : w'.phase = w.phase ∨ w.phase.jobs = [] ∧ w'.phase.jobs = []) :
    Services R (tr ++ [a]) w' := by
  obtain ⟨ss, hacts, htied⟩ := h
  refine ⟨ss, by rw [services_snoc, hacts]; simp [ha], ?_⟩
  rcases hp with hp | ⟨hp, hp'⟩
  · rwa [hp]
  · generalize w.phase = phase at htied hp
    cases htied with
    | idle _ hss => exact .idle hp' hss
    | running => cases hp

/-- The end of a command. -/
theorem Services.ended {conn : Nat} {job : Job} {res : Except IoError (Except RigError (Reply F))}
    (h : Services R tr w) (hp : w.phase = .running conn job (.done res))
    (hp' : w'.phase.jobs = []) : Services R (tr ++ [closing conn job res]) w' := by
  obtain ⟨ss, hacts, htied⟩ := h
  rw [hp] at htied
  cases htied with
  | idle hjobs => cases hjobs
  | @running ss s _ hss hnone htalk =>
      have hserv : (closing s.conn s.job res).isService = true := by cases res <;> rfl
      have hres : ∀ r ∈ some res, (.done res : Wire _) = .done r := fun r h => by
        rw [Option.mem_some_iff.mp h]
      refine ⟨ss ++ [⟨s.conn, s.job, s.events, some res, _, htalk, hres⟩], ?_,
        .idle hp' fun x hx => ?_⟩
      · rw [services_snoc, hacts]
        simp [List.flatMap_append, Service.acts, hnone, hserv]
      · rcases List.mem_append.mp hx with hx | hx
        · exact hss x hx
        · rw [List.mem_singleton.mp hx]
          rfl

theorem Services.step (h : Services R tr w) (hs : Step R w a w') :
    Services R (tr ++ [a]) w' := by
  cases hs with
  | @received conn job rest hp hchan =>
      obtain ⟨ss, hacts, htied⟩ := h
      rw [hp] at htied
      cases htied with
      | idle _ hss =>
          refine ⟨ss ++ [.start R conn job], ?_, .running hss rfl .nil⟩
          rw [services_snoc, hacts, List.flatMap_append]
          rfl
  | @wire conn job q k hp a =>
      obtain ⟨ss, hacts, htied⟩ := h
      rw [hp] at htied
      cases htied with
      | idle hjobs => cases hjobs
      | @running ss s _ hss hnone htalk =>
          have htalk' := htalk.snoc a
          refine ⟨ss ++ [⟨s.conn, s.job, s.events ++ [⟨q, a⟩], none, _, htalk',
            fun _ h => by cases h⟩], ?_, .running hss rfl htalk'⟩
          rw [services_snoc, hacts]
          simp [List.flatMap_append, Service.acts, hnone, Act.isService]
  | served hp =>
      refine h.ended hp ?_
      rfl
  | lost hp =>
      refine h.ended hp ?_
      rfl
  | requested | abandoned | sent | handlesDropped => exact h.other rfl (.inl rfl)
  | connected hp | connectFailed hp | woke hp | stoppedServing hp | stoppedSleeping hp =>
      exact h.other rfl (.inr ⟨by rw [hp]; rfl, rfl⟩)
  | drained => exact h.other rfl (.inl rfl)

/-- **The services of a run**, in order. -/
structure History (R : F32 F) (tr : List (Act F)) (ss : List (Service R)) : Prop where
  /-- Each is a contiguous part of what the actor has done. -/
  acts : services tr = ss.flatMap Service.acts
  /-- All but the last have ended. -/
  ended : ∀ s ∈ ss.dropLast, s.result.isSome
  order : (ss.map Service.job).Sublist (left tr)
  lines : ∀ conn, written (eventsOn tr conn) =
    (ss.filter (·.conn = conn)).flatMap (written ·.events)
  orderly : ∀ s ∈ ss, Orderly s.job.cmd s.events
  finished : ∀ s ∈ ss, ∀ res, s.result = some res → Finished s.job.cmd res s.events
  results : ∀ job res, (job, res) ∈ answers tr →
    res = .error .disconnected ∨ ∃ s ∈ ss, s.job = job ∧ s.result = some (.ok res)

theorem Services.history (h : Services R tr w) : ∃ ss : List (Service R), History R tr ss := by
  obtain ⟨ss, hacts, htied⟩ := h
  refine ⟨ss, hacts, fun s hs => ?_, ?_, fun conn => ?_, fun s _ => s.orderly,
    fun s _ res => s.finished, fun job res hmem => ?_⟩
  · generalize w.phase = phase at htied
    cases htied with
    | idle _ hss => exact hss s (List.dropLast_subset ss hs)
    | running hss => exact hss s (by simpa using hs)
  · have hjobs : ss.map Service.job = (services tr).filterMap Act.leaving := by
      rw [hacts, List.filterMap_flatMap]
      simp only [Service.leaving_acts]
      exact List.map_eq_flatMap
    rw [hjobs]
    exact List.filter_sublist.filterMap _
  · have hevents : eventsOn tr conn = (services tr).filterMap (Act.event conn) := by
      rw [eventsOn, services, List.filterMap_filter]
      exact congrArg (tr.filterMap ·) (funext fun a => by cases a <;> rfl)
    rw [hevents, hacts, List.filterMap_flatMap]
    simp only [Service.event_acts]
    clear hacts htied hevents
    induction ss with
    | nil => rfl
    | cons s ss ih =>
        by_cases hs : s.conn = conn
        · simp [hs, ih]
        · simp [hs, ih]
  · obtain ⟨a, ha, hans⟩ := List.mem_filterMap.mp hmem
    cases a with
    | served conn j r =>
        cases hans
        have hserv : Act.served conn job res ∈ services tr := List.mem_filter.mpr ⟨ha, rfl⟩
        rw [hacts] at hserv
        obtain ⟨s, hs, hmem⟩ := List.mem_flatMap.mp hserv
        exact .inr ⟨s, hs, s.of_served_mem hmem⟩
    | lost | drained =>
        cases hans
        exact .inl rfl
    | _ => cases hans

/-! ### The headline -/

/-- The actor is a server that carries out one command at a time, in the order they are sent. -/
structure Linearizable (R : F32 F) (tr : List (Act F)) (w : World F) : Prop where
  /-- Every request has one result, unless it is pending or has been abandoned. -/
  one_result : ∀ job ∈ requested tr, ((answers tr).map Prod.fst).count job +
    (abandoned tr).count job + w.pending.count job = 1
  /-- Those that are pending are answered in a bounded number of prompt steps. -/
  settles : ∃ n, ∀ tr' w', Run (Step R) Prompt w tr' w' → w'.pending ≠ [] →
    tr'.length ≤ n ∧ ∃ a w'', Step R w' a w'' ∧ Prompt w' a
  order : Order tr w
  history : ∃ ss : List (Service R), History R tr ss

/-- **Every run of the actor and its clients is linearizable.** -/
theorem linearizable (h : Run (Step R) Always .spawn tr w) : Linearizable R tr w := by
  have hcounts : Counts tr w := h.invariant .spawn fun _ h _ hs => h.step hs
  have horder : Order tr w := h.invariant .spawn fun _ h _ hs => h.step hs
  have hserv : Services R tr w :=
    h.invariant ⟨[], rfl, .idle rfl fun _ h => by cases h⟩ fun _ h _ hs => h.step hs
  have hlive : Live w := h.invariant (I := fun _ w => Live w) .spawn fun _ h _ hs => h.step hs
  refine ⟨fun job hjob => ?_, hlive.settles R, horder, hserv.history⟩
  have hone := List.count_eq_one_of_mem hcounts.nodup hjob
  have hbal := hcounts.balance job
  simp only [World.pending, List.count_append]
  omega

def tuneJob : Job := ⟨0, .setFreqMode 28270000 .usb⟩

def freqJob : Job := ⟨1, .getFreq⟩

/-- A `set_freq_mode`, and a `get_freq` that is sent while it is being carried out. -/
def raceActs : List (Act Nat) :=
  [.connected 0, .requested tuneJob, .sent tuneJob, .received 0 tuneJob,
    .wire 0 ⟨.send (setFreqLine 28270000), .ok ()⟩, .requested freqJob, .sent freqJob,
    .wire 0 ⟨.readLine, .ok "RPRT 0\n".toList⟩, .wire 0 ⟨.send (setModeLine .usb), .ok ()⟩,
    .wire 0 ⟨.readLine, .ok "RPRT 0\n".toList⟩, .served 0 tuneJob (.ok .done),
    .received 0 freqJob, .wire 0 ⟨.send "f".toList, .ok ()⟩,
    .wire 0 ⟨.readLine, .ok "28270000\n".toList⟩, .served 0 freqJob (.ok (.freq 28270000))]

/-- Where it leaves the actor. -/
def raceEnd : World Nat :=
  { (World.spawn : World Nat) with requests := 2, conns := 1, phase := .serving 0 }

theorem race_linearizable : Linearizable wholePower raceActs raceEnd := by
  refine linearizable ?_
  refine .cons trivial (.connected rfl) ?_
  refine .cons trivial (.requested _ rfl) ?_
  refine .cons trivial (.sent (l := []) rfl (by decide)) ?_
  refine .cons trivial (.received rfl rfl) ?_
  refine .cons trivial (.wire (q := .send _) rfl (.ok ())) ?_
  refine .cons trivial (.requested _ rfl) ?_
  refine .cons trivial (.sent (l := []) rfl (by decide)) ?_
  refine .cons trivial (.wire (q := .readLine) rfl (.ok _)) ?_
  refine .cons trivial (.wire (q := .send _) rfl (.ok ())) ?_
  refine .cons trivial (.wire (q := .readLine) rfl (.ok _)) ?_
  refine .cons trivial (.served rfl) ?_
  refine .cons trivial (.received rfl rfl) ?_
  refine .cons trivial (.wire (q := .send _) rfl (.ok ())) ?_
  refine .cons trivial (.wire (q := .readLine) rfl (.ok _)) ?_
  refine .cons trivial (.served rfl) ?_
  exact .nil

end WavelogRelay.Rig
