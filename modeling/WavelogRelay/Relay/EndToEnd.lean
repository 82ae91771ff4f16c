import WavelogRelay.Poller.Reasons
import WavelogRelay.Relay.Model
import WavelogRelay.Rig.Poll
import WavelogRelay.Ws.Stream

/-!
# Relay — what reaches Wavelog is what the rig said

What the loop has asked, and what it has taken of the replies, is read off the acts of a run.

* `Taken.step`: the loop takes the reply to each of its polls, once and in order.
* `frames_toWs`: the frames are of what the loop publishes.
* `end_to_end`: so each frame of a client and each snapshot of the worker is a state that rigctld
  has told in one poll, in the order of the polls.
-/

namespace WavelogRelay.Relay
open Library
open Rig (Job Reply RigError RigState Said answers requested onBehalf)

variable {κ ν F : Type}

/-! ### What has happened -/

def Act.asking : Act κ ν F → Option Job
  | .asked job => some job
  | _ => none

/-- The reply that the loop takes. -/
def Act.taking : Act κ ν F → Option (Job × Except RigError (Reply F))
  | .published job state _ => some (job, .ok (.state state))
  | .failed job e => some (job, .error e)
  | _ => none

/-- What the loop publishes: to the worker, and as a frame. -/
def Act.publication : Act κ ν F → Option (RigState F × UInt64)
  | .published _ state now => some (state, now)
  | _ => none

section History

variable (tr : List (Act κ ν F))

def asked : List Job := tr.filterMap Act.asking

def taken : List (Job × Except RigError (Reply F)) := tr.filterMap Act.taking

def publications : List (RigState F × UInt64) := tr.filterMap Act.publication

variable (a : Act κ ν F)

@[simp] theorem asked_snoc : asked (tr ++ [a]) = asked tr ++ a.asking.toList := filterMap_snoc _ _ _

@[simp] theorem taken_snoc : taken (tr ++ [a]) = taken tr ++ a.taking.toList := filterMap_snoc _ _ _

end History

/-- The reply that the loop has got and not taken. -/
def World.inHand (w : World κ ν F) : List (Job × Except RigError (Reply F)) :=
  w.listener.replies.filter fun x => w.loop = .polling x.1

/-- The state in a reply. -/
def replied : Except RigError (Reply F) → Option (RigState F)
  | .ok (.state state) => some state
  | _ => none

/-- What the loop publishes is what it takes. -/
theorem publications_eq (tr : List (Act κ ν F)) :
    (publications tr).map Prod.fst = (taken tr).filterMap fun x => replied x.2 := by
  rw [publications, taken, List.map_filterMap, List.filterMap_filterMap]
  congr 1
  funext a
  cases a <;> rfl

variable {w w' : World κ ν F} {tr : List (Act κ ν F)} {a : Act κ ν F}

/-! ### Every reply is taken once -/

/-- A key that is in a list once. -/
theorem filter_eq_singleton {α β : Type} [DecidableEq α] {l : List (α × β)} {a : α} {b : β}
    (hn : (l.map Prod.fst).Nodup) (h : (a, b) ∈ l) : l.filter (·.1 = a) = [(a, b)] := by
  obtain ⟨l₁, l₂, rfl⟩ := List.append_of_mem h
  simp only [List.map_append, List.map_cons, List.nodup_append, List.nodup_cons] at hn
  obtain ⟨-, ⟨h₂, -⟩, h₁⟩ := hn
  have hnone₁ : l₁.filter (·.1 = a) = [] := List.filter_eq_nil_iff.mpr fun x hx => by
    simpa using h₁ x.1 (List.mem_map_of_mem hx) a List.mem_cons_self
  have hnone₂ : l₂.filter (·.1 = a) = [] := List.filter_eq_nil_iff.mpr fun x hx => by
    simp only [decide_eq_true_eq]
    rintro rfl
    exact h₂ (List.mem_map_of_mem hx)
  simp [List.filter_append, hnone₁, hnone₂]

/-- The listener has kept what the actor answered. -/
structure Answered (tr : List (Act κ ν F)) (w : World κ ν F) : Prop where
  replies : w.listener.replies = answers (toRig tr)
  counts : Rig.Counts (toRig tr) w.listener.rig

theorem Answered.nodup (h : Answered tr w) : ((answers (toRig tr)).map Prod.fst).Nodup := by
  refine List.nodup_iff_count_le_one.mpr fun job => ?_
  have hbal := h.counts.balance job
  have hle := List.nodup_iff_count_le_one.mp h.counts.nodup job
  omega

/-- What is answered has been requested. -/
theorem Answered.requested (h : Answered tr w) {x : Job × Except RigError (Reply F)}
    (hx : x ∈ answers (toRig tr)) : x.1 ∈ requested (toRig tr) := by
  have hbal := h.counts.balance x.1
  have hpos := List.count_pos_iff.mpr (List.mem_map_of_mem (f := Prod.fst) hx)
  exact List.count_pos_iff.mp (by omega)

/-- What the loop has asked, and what it has taken of it. -/
structure Taken (tr : List (Act κ ν F)) (w : World κ ν F) : Prop where
  poll : ∀ job ∈ asked tr, job.cmd = .poll
  requested : ∀ job ∈ asked tr, job ∈ requested (toRig tr)
  polling : ∀ job, w.loop = .polling job → job ∈ asked tr
  /-- What was asked is taken, or the loop waits for it. -/
  settled : ∀ job ∈ asked tr, w.loop = .polling job ∨ job ∈ (taken tr).map Prod.fst
  taken : (answers (toRig tr)).filter (·.1 ∈ asked tr) = taken tr ++ w.inHand

theorem Taken.start {radio : Text} {powerMaxWatts : F} :
    Taken [] (.start radio powerMaxWatts : World κ ν F) :=
  ⟨fun _ h => (by cases h), fun _ h => (by cases h), fun _ h => (by cases h),
    fun _ h => (by cases h), rfl⟩

/-- A step of the others, that has brought the answers `l`. -/
theorem Taken.other {l : List (Job × Except RigError (Reply F))} (h : Taken tr w)
    (ha : Answered (tr ++ [a]) w') (hans : answers (toRig (tr ++ [a])) = answers (toRig tr) ++ l)
    (hrep : w'.listener.replies = w.listener.replies ++ l)
    (hreq : Rig.requested (toRig tr) ⊆ Rig.requested (toRig (tr ++ [a])))
    (hq : a.asking = none) (ht : a.taking = none)
    (hloop : ∀ job, w'.loop = .polling job ↔ w.loop = .polling job) : Taken (tr ++ [a]) w' := by
  have hasked : asked (tr ++ [a]) = asked tr := by simp [hq]
  have htaken : Relay.taken (tr ++ [a]) = Relay.taken tr := by simp [ht]
  -- an answer to what the loop has asked is the one that it waits for
  have hnew : ∀ x ∈ l, x.1 ∈ asked tr ↔ w.loop = .polling x.1 := by
    intro x hx
    refine ⟨fun hmem => (h.settled x.1 hmem).resolve_right fun hold => ?_, h.polling x.1⟩
    obtain ⟨y, hy, hxy⟩ := List.mem_map.mp hold
    have hy' : y ∈ answers (toRig tr) :=
      List.mem_of_mem_filter (h.taken ▸ List.mem_append_left _ hy)
    have hn := ha.nodup
    rw [hans, List.map_append, List.nodup_append] at hn
    exact hn.2.2 y.1 (List.mem_map_of_mem hy') x.1 (List.mem_map_of_mem hx) hxy
  refine ⟨hasked ▸ h.poll, fun job hj => ?_, fun job hj => ?_, fun job hj => ?_, ?_⟩
  · exact hreq (h.requested job (hasked ▸ hj))
  · exact hasked ▸ h.polling job ((hloop job).mp hj)
  · rw [htaken, hloop job]
    exact h.settled job (hasked ▸ hj)
  · have hl : l.filter (·.1 ∈ asked tr) = l.filter fun x => w.loop = .polling x.1 :=
      List.filter_congr fun x hx => decide_eq_decide.mpr (hnew x hx)
    rw [hasked, htaken, hans, List.filter_append, h.taken, hl, World.inHand, World.inHand, hrep,
      List.filter_append, List.append_assoc]
    simp only [hloop]

/-- The loop asks. -/
theorem Taken.ask {l : Listener.System κ F} (h : Taken tr w) (ha : Answered tr w)
    (hl : ∀ job, w.loop ≠ .polling job) (hrep : l.replies = w.listener.replies) :
    Taken (tr ++ [.asked ⟨w.listener.rig.requests, .poll⟩])
      { w with listener := l, loop := .polling ⟨w.listener.rig.requests, .poll⟩ } := by
  set job : Job := ⟨w.listener.rig.requests, .poll⟩
  have hrig : toRig (tr ++ [.asked job]) = toRig tr ++ [.requested job] := by
    simp [toRig, toListener, Act.toListener, Listener.Act.rigAct]
  have hasked : asked (tr ++ [.asked job]) = asked tr ++ [job] := by simp [Act.asking]
  have htaken : Relay.taken (tr ++ [.asked job]) = Relay.taken tr := by simp [Act.taking]
  have hnone : ∀ x ∈ answers (toRig tr), x.1 ≠ job := by
    intro x hx e
    have hlt := ha.counts.fresh _ (ha.requested hx)
    rw [e] at hlt
    exact Nat.lt_irrefl _ hlt
  refine ⟨fun j hj => ?_, fun j hj => ?_, fun j hj => ?_, fun j hj => ?_, ?_⟩
  · rw [hasked, List.mem_append, List.mem_singleton] at hj
    rcases hj with hj | rfl
    · exact h.poll j hj
    · rfl
  · rw [hasked, List.mem_append, List.mem_singleton] at hj
    rw [hrig, Rig.requested_snoc, List.mem_append]
    rcases hj with hj | rfl
    · exact .inl (h.requested j hj)
    · exact .inr (List.mem_singleton_self _)
  · cases hj
    simp [hasked]
  · rw [hasked, List.mem_append, List.mem_singleton] at hj
    rw [htaken]
    rcases hj with hj | rfl
    · exact .inr ((h.settled j hj).resolve_left (hl j))
    · exact .inl rfl
  · have hold : (answers (toRig tr)).filter (·.1 ∈ asked tr ++ [job]) =
        (answers (toRig tr)).filter (·.1 ∈ asked tr) :=
      List.filter_congr fun x hx => decide_eq_decide.mpr (by simp [hnone x hx])
    have hhand : w.inHand = [] :=
      List.filter_eq_nil_iff.mpr fun x _ => by simp [hl x.1]
    have hhand' : l.replies.filter (fun x => Loop.polling job = .polling x.1) = [] := by
      rw [hrep, ha.replies]
      refine List.filter_eq_nil_iff.mpr fun x hx => ?_
      simpa using (hnone x hx).symm
    rw [hasked, htaken, hrig, Rig.answers_snoc, World.inHand]
    simp only [Rig.Act.answer, Option.toList_none, List.append_nil]
    rw [hold, h.taken, hhand, hhand']

/-- The loop takes the reply that it waits for. -/
theorem Taken.take {job : Job} {res : Except RigError (Reply F)} (h : Taken tr w)
    (ha : Answered tr w) (hl : w.loop = .polling job) (hr : (job, res) ∈ w.listener.replies)
    (hrig : toRig (tr ++ [a]) = toRig tr) (hq : a.asking = none)
    (ht : a.taking = some (job, res)) (hl' : ∀ job, w'.loop ≠ .polling job) :
    Taken (tr ++ [a]) w' := by
  have hasked : asked (tr ++ [a]) = asked tr := by simp [hq]
  have htaken : Relay.taken (tr ++ [a]) = Relay.taken tr ++ [(job, res)] := by simp [ht]
  have hhand : w.inHand = [(job, res)] := by
    have hone := filter_eq_singleton ha.nodup (ha.replies ▸ hr)
    rw [World.inHand, ha.replies, ← hone]
    exact List.filter_congr fun x _ => decide_eq_decide.mpr (by simp [hl, eq_comm])
  have hhand' : w'.inHand = [] := List.filter_eq_nil_iff.mpr fun x _ => by simp [hl' x.1]
  refine ⟨hasked ▸ h.poll, by rw [hasked, hrig]; exact h.requested, fun j hj => ?_, fun j hj => ?_,
    ?_⟩
  · exact absurd hj (hl' j)
  · rw [htaken, List.map_append, List.mem_append]
    rcases h.settled j (hasked ▸ hj) with hp | hmem
    · rw [hl] at hp
      cases hp
      exact .inr (.inr (by simp))
    · exact .inr (.inl hmem)
  · rw [hasked, htaken, hrig, h.taken, hhand, hhand', List.append_nil]

/-! ### Runs -/

theorem toRig_snoc (tr : List (Act κ ν F)) (a : Act κ ν F) :
    toRig (tr ++ [a]) = toRig tr ++ (a.toListener.bind (·.rigAct)).toList := by
  rw [toRig, toListener, List.filterMap_append, List.filterMap_append]
  cases ha : a.toListener with
  | none => simp [toRig, toListener, ha]
  | some b => cases hb : b.rigAct <;> simp [toRig, toListener, ha, hb]

/-- A step that is none of the listener's. -/
theorem Taken.apart (h : Taken tr w) (ha : Answered (tr ++ [a]) w')
    (hn : a.toListener = none) (hlist : w'.listener = w.listener) (hq : a.asking = none)
    (ht : a.taking = none) (hloop : ∀ job, w'.loop = .polling job ↔ w.loop = .polling job) :
    Taken (tr ++ [a]) w' := by
  have hrig : toRig (tr ++ [a]) = toRig tr := by simp [toRig_snoc, hn]
  refine h.other (l := []) ha ?_ ?_ ?_ hq ht hloop
  · rw [hrig, List.append_nil]
  · rw [hlist, List.append_nil]
  · rw [hrig]
    exact List.Subset.refl _

variable [DecidableEq κ] {P : Setup κ F}

/-- A step of the listener. -/
theorem Taken.listen {b : Listener.Act κ F} {l : Listener.System κ F} (h : Taken tr w)
    (ha : Answered (tr ++ [.listener b]) { w with listener := l })
    (hs : Listener.Step P.float P.app P.request w.listener b l) :
    Taken (tr ++ [.listener b]) { w with listener := l } := by
  have hrig := toRig_snoc tr (.listener b : Act κ ν F)
  have hnew : l.replies = w.listener.replies ++ answers (b.rigAct.toList) := by
    cases hs with
    | refused | resumed | dropped | dispatched =>
        simp [Listener.Act.rigAct, answers, Rig.Act.answer, Listener.System.setStage]
    | @rig b => cases hb : b.answer <;> simp [Listener.Act.rigAct, answers, hb]
  refine h.other ha ?_ hnew ?_ rfl rfl fun _ => Iff.rfl
  · rw [hrig, answers, List.filterMap_append]
    rfl
  · rw [hrig, Rig.requested, Rig.requested, List.filterMap_append]
    exact List.subset_append_left _ _

variable [DecidableEq ν]

theorem Taken.step (h : Taken tr w) (hloop : w.LoopRuns) (hold : Answered tr w)
    (hnew : Answered (tr ++ [a]) w') (hs : Step P w a w') : Taken (tr ++ [a]) w' := by
  cases hs with
  | listener hs => exact h.listen hnew hs
  | asked ht hl hwake hs =>
      refine h.ask hold (fun job hj => by cases hl.symm.trans hj) ?_
      cases hs with
      | rig hs ha => exact List.append_nil _
  | published now ht hl hr =>
      exact h.take hold hl hr (by simp [toRig_snoc, Act.toListener]) rfl rfl fun _ h => by cases h
  | failed ht hl hr =>
      exact h.take hold hl hr (by simp [toRig_snoc, Act.toListener]) rfl rfl fun _ h => by cases h
  | started ht hs =>
      refine h.apart hnew rfl rfl rfl rfl fun job => ?_
      exact iff_of_false (fun h => by cases h) fun h => by cases ht.symm.trans (hloop job h)
  | notified ht hl hc hobs =>
      exact h.apart hnew rfl rfl rfl rfl fun job => by simp [World.sleep, hl]
  | elapsed | returned | stopped | worker | conn | shutdown | senderDropped =>
      exact h.apart hnew rfl rfl rfl rfl fun job => Iff.rfl

section Runs

variable {C : World κ ν F → Act κ ν F → Prop} {radio : Text} {powerMaxWatts : F}

theorem answered_run (h : Run (Step P) C (.start radio powerMaxWatts) tr w) : Answered tr w :=
  ⟨Listener.replies_eq (listener_run h), (Rig.account (Listener.recorded (listener_run h))).counts⟩

theorem loopRuns_run (h : Run (Step P) C (.start radio powerMaxWatts) tr w) : w.LoopRuns :=
  h.invariant (I := fun _ w => w.LoopRuns) (fun _ h => by cases h) fun _ h _ hs => h.step hs

theorem taken_run (h : Run (Step P) C (.start radio powerMaxWatts) tr w) : Taken tr w :=
  h.invariant .start fun hrun ih hC hs =>
    ih.step (loopRuns_run hrun) (answered_run hrun) (answered_run (hrun.extend hs hC)) hs

/-- A state that the loop takes has been told by rigctld in that poll. -/
theorem said_run (h : Run (Step P) C (.start radio powerMaxWatts) tr w) {job : Job}
    {state : RigState F} (hmem : (job, .ok (.state state)) ∈ taken tr) :
    Said P.float state (onBehalf w.listener.record job) := by
  have hacc := Rig.account (Listener.recorded (listener_run h))
  have ht := taken_run h
  have hmem' : (job, .ok (.state state)) ∈ (answers (toRig tr)).filter (·.1 ∈ asked tr) := by
    rw [ht.taken]
    exact List.mem_append_left _ hmem
  obtain ⟨hans, hasked⟩ := List.mem_filter.mp hmem'
  have hcmd : job.cmd = .poll := ht.poll job (of_decide_eq_true hasked)
  have hrep := hacc.replied job _ hans
  generalize hes : onBehalf w.listener.record job = es at hrep ⊢
  generalize hres : Except.ok (Reply.state state) = res at hrep
  cases hrep with
  | drained => cases hres
  | @talked r htalk =>
      rcases r with e | r
      · cases hres
      · obtain rfl : Except.ok (Reply.state state) = r := hres
        rw [hcmd] at htalk
        obtain ⟨state', hstate, hsaid⟩ := Rig.said_of_talk htalk
        cases hstate
        exact hsaid

end Runs

/-! ### The readers -/

/-- A frame of the server that a run starts with. -/
def frame (P : Setup κ F) (radio : Text) (powerMaxWatts : F) (x : RigState F × UInt64) :
    Option Text :=
  (Ws.WsHandle.new radio powerMaxWatts).frame P.format x.1 x.2

omit [DecidableEq κ] [DecidableEq ν] in
/-- The frames are of what the loop publishes. -/
theorem frames_toWs (P : Setup κ F) (radio : Text) (powerMaxWatts : F)
    (tr : List (Act κ ν F)) :
    Ws.frames P.format (.new radio powerMaxWatts) (toWs tr) =
      (publications tr).filterMap (frame P radio powerMaxWatts) := by
  rw [Ws.frames, toWs, publications, List.filterMap_filterMap, List.filterMap_filterMap]
  congr 1
  funext a
  cases a <;> rfl

omit [DecidableEq κ] [DecidableEq ν] in
theorem published_toPoller (tr : List (Act κ ν F)) (hw : ∀ a, .worker a ∈ tr → ofWorker a) :
    Poller.published (toPoller tr) = (publications tr).map Prod.fst := by
  rw [Poller.published, toPoller, publications, List.filterMap_filterMap, List.map_filterMap]
  refine List.filterMap_congr fun a ha => ?_
  cases a with
  | worker a =>
      have h := hw a ha
      cases a with
      | published => exact h.elim
      | _ => rfl
  | _ => rfl

section Headline

variable {radio : Text} {powerMaxWatts : F}

theorem workers_run {C : World κ ν F → Act κ ν F → Prop}
    (h : Run (Step P) C (.start radio powerMaxWatts) tr w) : ∀ b, .worker b ∈ tr → ofWorker b := by
  refine h.invariant (I := fun tr _ => ∀ b, .worker b ∈ tr → ofWorker b) (fun _ h => by cases h) ?_
  rintro tr s a s' - ih - hs b hb
  rcases List.mem_append.mp hb with hb | hb
  · exact ih b hb
  · obtain rfl := List.mem_singleton.mp hb
    cases hs with
    | worker _ ha => exact ha

/-- From the rig to the readers, after the acts `tr`. -/
structure EndToEnd (P : Setup κ F) (radio : Text) (powerMaxWatts : F) (tr : List (Act κ ν F))
    (w : World κ ν F) : Prop where
  /-- The loop takes each reply to its polls, once and in order; the last may be in its hand. -/
  taken : (answers (toRig tr)).filter (·.1 ∈ asked tr) = taken tr ++ w.inHand
  settled : ∀ job ∈ asked tr, job ∈ (Relay.taken tr).map Prod.fst ∨ w.loop = .polling job
  /-- A state that it takes has been told by rigctld, in that poll. -/
  said : ∀ job state, (job, .ok (.state state)) ∈ Relay.taken tr →
    Said P.float state (onBehalf w.listener.record job)
  /-- These states it publishes, and no others. -/
  published : (publications tr).map Prod.fst = (Relay.taken tr).filterMap fun x => replied x.2
  /-- A client gets the frames of those since its subscription, from the first on. -/
  clients : ∀ c tr₁ tr₂, tr = tr₁ ++ .conn c .subscribe :: tr₂ →
    Ws.textsOn c (toWs tr) <+:
      Ws.welcomeFrame :: (publications tr₂).filterMap (frame P radio powerMaxWatts)
  unsubscribed : ∀ c, .conn c .subscribe ∉ tr → Ws.textsOn c (toWs tr) = []
  /-- The worker evaluates some of them, in that order. -/
  pushed : ((Poller.evaluated (toPoller tr)).map Poller.Snapshot.state).Sublist
    ((publications tr).map Prod.fst)

end Headline

/-! ### One poll -/

def secondSetup : Setup Unit Nat where
  float := Rig.wholePower
  format := Ws.wholeFormat
  app := { overrides := {}, allowOrigin := [] }
  request _ := Listener.clickRequest
  tickInterval := nanosPerSec

def pollJob : Job := ⟨0, .poll⟩

def pollTalk : List Rig.WireEvent :=
  [⟨.send "f".toList, .ok ()⟩, ⟨.readLine, .ok "14200000\n".toList⟩,
    ⟨.send "m".toList, .ok ()⟩, ⟨.readLine, .ok "USB\n".toList⟩, ⟨.readLine, .ok "2400\n".toList⟩,
    ⟨.send "\\get_level RFPOWER".toList, .ok ()⟩, ⟨.readLine, .ok "RPRT -11\n".toList⟩]

def rigAct (a : Rig.Act Nat) : Act Unit Unit Nat := .listener (.rig a)

/-- A client subscribes, and the rig is polled. -/
def pollActs : List (Act Unit Unit Nat) :=
  [.started, .conn () .check, .conn () .subscribe, .conn () (.sent (.text Ws.welcomeFrame)),
    .elapsed nanosPerSec, .asked pollJob, rigAct (.connected 0), rigAct (.sent pollJob),
    rigAct (.received 0 pollJob)] ++ pollTalk.map (fun e => rigAct (.wire 0 e)) ++
    [rigAct (.served 0 pollJob (.ok (.state Ws.usbState))), .published pollJob Ws.usbState 0,
      .conn () .received, .conn () (.sent (.text Ws.usbFrame))]

def pollEnd : World Unit Unit Nat where
  listener :=
    { rig :=
        { (Rig.World.spawn : Rig.World Nat) with requests := 1, conns := 1, phase := .serving 0 }
      record := pollTalk.map (pollJob, ·)
      replies := [(pollJob, .ok (.state Ws.usbState))]
      stage := fun _ => .arrived }
  poller :=
    { (Poller.World.start : Poller.World Nat) with
      ticker := .ticking
      worker := .spawned
      states := ⟨some Ws.usbState, 1, false⟩ }
  ws :=
    { handle := (Ws.WsHandle.new "IC-7300".toList 100).broadcast Ws.wholeFormat Ws.usbState 0
      shutdown := .new false
      conn := [.subscribing 0, .welcoming 0 0, .selecting 0 0, .sending 0 1 Ws.usbFrame,
        .selecting 0 1].foldl (fun conn phase => Function.update conn () phase) fun _ => .accepted }
  loop := .sleeping (2 * nanosPerSec)
  clock := nanosPerSec

theorem poll_run :
    Run (Step secondSetup) Always (.start "IC-7300".toList 100) pollActs pollEnd := by
  let handle : Ws.WsHandle Nat := .new "IC-7300".toList 100
  have hrecv : (handle.broadcast Ws.wholeFormat Ws.usbState 0).tx.recv 0 =
      some (.value Ws.usbFrame, 1) := by
    have hf : handle.frame Ws.wholeFormat Ws.usbState 0 = some Ws.usbFrame := by decide +kernel
    rw [Ws.WsHandle.broadcast, hf]
    rfl
  refine .cons trivial (.started rfl rfl) ?_
  refine .cons trivial (.conn (.conn (.admitted rfl))) ?_
  refine .cons trivial (.conn (.conn .subscribed)) ?_
  refine .cons trivial (.conn (.conn .welcomed)) ?_
  refine .cons trivial (.elapsed _) ?_
  refine .cons trivial (.asked rfl rfl (Nat.le_refl _) (listen_of_rig (.requested _ rfl) rfl)) ?_
  refine .cons trivial (.of_rig (.connected rfl) rfl trivial) ?_
  refine .cons trivial (.of_rig (.sent (l := []) rfl (by decide)) rfl trivial) ?_
  refine .cons trivial (.of_rig (.received rfl rfl) rfl trivial) ?_
  refine .cons trivial (.of_rig (.wire (q := .send _) rfl (.ok ())) rfl trivial) ?_
  refine .cons trivial (.of_rig (.wire (q := .readLine) rfl (.ok _)) rfl trivial) ?_
  refine .cons trivial (.of_rig (.wire (q := .send _) rfl (.ok ())) rfl trivial) ?_
  refine .cons trivial (.of_rig (.wire (q := .readLine) rfl (.ok _)) rfl trivial) ?_
  refine .cons trivial (.of_rig (.wire (q := .readLine) rfl (.ok _)) rfl trivial) ?_
  refine .cons trivial (.of_rig (.wire (q := .send _) rfl (.ok ())) rfl trivial) ?_
  refine .cons trivial (.of_rig (.wire (q := .readLine) rfl (.ok _)) rfl trivial) ?_
  refine .cons trivial (.of_rig (.served rfl) rfl trivial) ?_
  refine .cons trivial (.published 0 rfl rfl (.head _)) ?_
  refine .cons trivial (.conn (.conn (.received hrecv))) ?_
  refine .cons trivial (.conn (.conn .frameSent)) ?_
  exact .nil

end WavelogRelay.Relay
