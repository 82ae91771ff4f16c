import WavelogRelay.Rig.Cut
import WavelogRelay.Rig.Linear

/-!
# Rig — what is said for each request

`Recorded` is a step of the actor and its clients with a record kept beside it: each event on the
wire, with the request whose command it is part of.

* `Account`: what the record holds of a request at each point of its way.  Nothing is said for it
  before its command is received, or if it never is; then a talk of its command; and once it has
  a result, the result is that of the talk.
* `account`: in every run.
-/

namespace WavelogRelay.Rig
open Library Dialogue

variable {F : Type}

/-- Events on the wire, each with the request it is part of. -/
abbrev Record := List (Job × WireEvent)

/-- The event of a step, with the request that is being carried out. -/
def entry (w : World F) : Act F → Option (Job × WireEvent)
  | .wire _ e => w.phase.jobs.head?.map (·, e)
  | _ => none

/-- What is said for a request. -/
def onBehalf (record : Record) (job : Job) : List WireEvent :=
  (record.filter (·.1 = job)).map Prod.snd

inductive Recorded (R : F32 F) : World F × Record → Act F → World F × Record → Prop where
  | step {w w' : World F} {a : Act F} (record : Record) (h : Step R w a w') :
      Recorded R (w, record) a (w', record ++ (entry w a).toList)

variable {R : F32 F} {tr : List (Act F)} {w w' : World F} {a : Act F} {record : Record}

theorem onBehalf_snoc_same (record : Record) (job : Job) (e : WireEvent) :
    onBehalf (record ++ [(job, e)]) job = onBehalf record job ++ [e] := by
  simp [onBehalf, List.filter_append]

theorem onBehalf_snoc_other {job job' : Job} (h : job' ≠ job) (record : Record) (e : WireEvent) :
    onBehalf (record ++ [(job', e)]) job = onBehalf record job := by
  simp [onBehalf, List.filter_append, h]

/-- How the result of a request comes about: by its talk, or because it is drained unheard. -/
inductive Replied (R : F32 F) (job : Job) (es : List WireEvent) : Except RigError (Reply F) → Prop
  where
  | talked {res : Except IoError (Except RigError (Reply F))}
      (h : Talk (handleCommand R job.cmd) es (.done res)) : Replied R job es (delivered res)
  | drained (h : es = []) : Replied R job es (.error .disconnected)

/-- What the record holds of each request. -/
structure Account (R : F32 F) (tr : List (Act F)) (w : World F) (record : Record) : Prop where
  counts : Counts tr w
  talk : ∀ job, ∃ rest, Talk (handleCommand R job.cmd) (onBehalf record job) rest
  running : ∀ conn job rest, w.phase = .running conn job rest →
    Talk (handleCommand R job.cmd) (onBehalf record job) rest
  silent : ∀ job, job ∈ w.waiting ++ w.chan ∨ job ∉ requested tr → onBehalf record job = []
  replied : ∀ job res, (job, res) ∈ answers tr → Replied R job (onBehalf record job) res

theorem Account.spawn : Account R [] (.spawn : World F) [] where
  counts := .spawn
  talk _ := ⟨_, .nil⟩
  running _ _ _ h := by cases h
  silent _ _ := rfl
  replied _ _ h := by cases h

/-- A request that is being carried out is nowhere else. -/
theorem Counts.running {conn : Nat} {job : Job} {rest : Wire (Except RigError (Reply F))}
    (h : Counts tr w) (hp : w.phase = .running conn job rest) :
    job ∈ requested tr ∧ job ∉ w.waiting ++ w.chan ∧ ∀ res, (job, res) ∉ answers tr := by
  have hbal := h.balance job
  have hle := List.nodup_iff_count_le_one.mp h.nodup job
  have hjobs : w.phase.jobs.count job = 1 := by simp [hp, Phase.jobs]
  have hreq : job ∈ requested tr := List.count_pos_iff.mp (by omega)
  refine ⟨hreq, ?_, ?_⟩
  · intro hmem
    have hpos := List.count_pos_iff.mpr hmem
    rw [List.count_append] at hpos
    omega
  · intro res hmem
    have hpos := List.count_pos_iff.mpr (List.mem_map_of_mem (f := Prod.fst) hmem)
    simp only at hpos
    omega

/-- What the record holds of a request that was not one before. -/
theorem Account.silent_of_request (h : Account R tr w record) {job : Job}
    (hj : job ∉ requested (tr ++ [a])) : onBehalf record job = [] :=
  h.silent job <| .inr fun hmem =>
    hj (by rw [requested_snoc]; exact List.mem_append_left _ hmem)

/-- A step that says nothing and after which no command is carried out, or the one that was. -/
theorem Account.quiet (h : Account R tr w record) (hc : Counts (tr ++ [a]) w')
    (he : entry w a = none) (hp : w'.phase.jobs = [] ∨ w'.phase = w.phase)
    (hq : ∀ job ∈ w'.waiting ++ w'.chan, job ∈ w.waiting ++ w.chan ∨ job ∉ requested tr)
    (ha : ∀ job res, a.answer = some (job, res) → Replied R job (onBehalf record job) res) :
    Account R (tr ++ [a]) w' (record ++ (entry w a).toList) := by
  rw [he, Option.toList_none, List.append_nil]
  refine ⟨hc, h.talk, fun conn job rest h' => ?_, fun job hj => ?_, fun job res hmem => ?_⟩
  · rcases hp with hp | hp
    · rw [h'] at hp
      cases hp
    · exact h.running conn job rest (hp ▸ h')
  · rcases hj with hj | hj
    · exact h.silent job (hq job hj)
    · exact h.silent_of_request hj
  · rw [answers_snoc, List.mem_append, Option.mem_toList] at hmem
    rcases hmem with hmem | hmem
    · exact h.replied job res hmem
    · exact ha job res hmem

theorem Account.unanswered (h : Account R tr w record) (hc : Counts (tr ++ [a]) w')
    (he : entry w a = none) (ha : a.answer = none)
    (hp : w'.phase.jobs = [] ∨ w'.phase = w.phase)
    (hq : ∀ job ∈ w'.waiting ++ w'.chan, job ∈ w.waiting ++ w.chan ∨ job ∉ requested tr) :
    Account R (tr ++ [a]) w' (record ++ (entry w a).toList) :=
  h.quiet hc he hp hq fun job res h' => by cases ha.symm.trans h'

/-- A command is received: nothing has been said for it. -/
theorem Account.received {conn : Nat} {job : Job} {rest : List Job} (h : Account R tr w record)
    (hc : Counts (tr ++ [.received conn job])
      { w with chan := rest, phase := .running conn job (handleCommand R job.cmd) })
    (hchan : w.chan = job :: rest) :
    Account R (tr ++ [.received conn job])
      { w with chan := rest, phase := .running conn job (handleCommand R job.cmd) } record := by
  refine ⟨hc, h.talk, fun conn' job' rest' h' => ?_, fun job' hj => ?_, fun job' res hmem => ?_⟩
  · obtain ⟨rfl, rfl, rfl⟩ := Phase.running.inj h'
    rw [h.silent job (.inl (by simp [hchan]))]
    exact .nil
  · rcases hj with hj | hj
    · refine h.silent job' (.inl ?_)
      rw [hchan]
      exact (List.sublist_append_right [job] rest).append_left w.waiting |>.subset hj
    · exact h.silent_of_request hj
  · rw [answers_snoc] at hmem
    exact h.replied job' res (by simpa [Act.answer] using hmem)

/-- An event on the wire goes to the request that is being carried out, and to no other. -/
theorem Account.wire {conn : Nat} {job : Job} {q : Ask}
    {k : Answer q → Wire (Except RigError (Reply F))} (h : Account R tr w record) (ans : Answer q)
    (hc : Counts (tr ++ [.wire conn ⟨q, ans⟩]) { w with phase := .running conn job (k ans) })
    (hp : w.phase = .running conn job (.ask q k)) :
    Account R (tr ++ [.wire conn ⟨q, ans⟩]) { w with phase := .running conn job (k ans) }
      (record ++ [(job, ⟨q, ans⟩)]) := by
  obtain ⟨hreq, hqueue, hans⟩ := h.counts.running hp
  have htalk := (h.running _ _ _ hp).snoc ans
  have hother : ∀ job', job' ≠ job →
      onBehalf (record ++ [(job, ⟨q, ans⟩)]) job' = onBehalf record job' := fun job' hne =>
    onBehalf_snoc_other (Ne.symm hne) record _
  refine ⟨hc, fun job' => ?_, fun conn' job' rest' h' => ?_, fun job' hj => ?_,
    fun job' res hmem => ?_⟩
  · by_cases hjob : job' = job
    · subst hjob
      exact ⟨_, onBehalf_snoc_same record job' _ ▸ htalk⟩
    · exact hother job' hjob ▸ h.talk job'
  · obtain ⟨rfl, rfl, rfl⟩ := Phase.running.inj h'
    exact onBehalf_snoc_same record job _ ▸ htalk
  · have hjob : job' ≠ job := by
      rintro rfl
      rcases hj with hj | hj
      · exact hqueue hj
      · exact hj (by rw [requested_snoc]; exact List.mem_append_left _ hreq)
    rw [hother job' hjob]
    exact hj.elim (fun hj => h.silent job' (.inl hj)) h.silent_of_request
  · rw [answers_snoc] at hmem
    have hmem : (job', res) ∈ answers tr := by simpa [Act.answer] using hmem
    rw [hother job' fun hjob => hans res (hjob ▸ hmem)]
    exact h.replied job' res hmem

/-- **A step keeps the account.** -/
theorem Account.step (h : Account R tr w record) (hs : Step R w a w') :
    Account R (tr ++ [a]) w' (record ++ (entry w a).toList) := by
  have hc := h.counts.step hs
  cases hs with
  | requested cmd hh =>
      refine h.unanswered hc rfl rfl (.inr rfl) fun job hj => ?_
      have hfresh : (⟨w.requests, cmd⟩ : Job) ∉ requested tr := fun hmem =>
        Nat.lt_irrefl _ (h.counts.fresh _ hmem)
      rw [List.mem_append, List.mem_append, List.mem_singleton] at hj
      rcases hj with (hj | rfl) | hj
      · exact .inl (List.mem_append_left _ hj)
      · exact .inr hfresh
      · exact .inl (List.mem_append_right _ hj)
  | abandoned hw =>
      refine h.unanswered hc rfl rfl (.inr rfl) fun job hj => .inl ?_
      rw [hw]
      simp only [List.mem_append, List.mem_cons] at hj ⊢
      tauto
  | sent hw =>
      refine h.unanswered hc rfl rfl (.inr rfl) fun job hj => .inl ?_
      rw [hw]
      simp only [List.mem_append, List.mem_cons, List.not_mem_nil, or_false] at hj ⊢
      tauto
  | handlesDropped => exact h.unanswered hc rfl rfl (.inr rfl) fun _ => .inl
  | connected | connectFailed | woke | stoppedServing | stoppedSleeping =>
      exact h.unanswered hc rfl rfl (.inl rfl) fun _ => .inl
  | received _ hchan =>
      have hrecord := h.received hc hchan
      rwa [← List.append_nil record] at hrecord
  | wire hp ans =>
      have he : ∀ conn e, entry w (.wire conn e) = some (_, e) := fun _ _ => by
        simp only [entry, hp]
        rfl
      rw [he]
      exact h.wire ans hc hp
  | served hp =>
      refine h.quiet hc rfl (.inl rfl) (fun _ => .inl) fun job res h' => ?_
      cases h'
      exact .talked (h.running _ _ _ hp)
  | lost hp =>
      refine h.quiet hc rfl (.inl rfl) (fun _ => .inl) fun job res h' => ?_
      cases h'
      exact .talked (h.running _ _ _ hp)
  | drained _ hchan =>
      refine h.quiet hc rfl (.inr rfl) (fun job hj => .inl ?_) fun job res h' => ?_
      · rw [hchan]
        simp only [List.mem_append, List.mem_cons] at hj ⊢
        tauto
      · cases h'
        exact .drained (h.silent _ (.inl (by simp [hchan])))

/-- **The account of every run.** -/
theorem account {s : World F × Record} (h : Run (Recorded R) Always (.spawn, []) tr s) :
    Account R tr s.1 s.2 := by
  refine h.invariant (I := fun tr s => Account R tr s.1 s.2) ?_ ?_
  · exact Account.spawn
  · rintro tr s a s' - ih - hs
    cases hs with
    | step record hs => exact ih.step hs

end WavelogRelay.Rig
