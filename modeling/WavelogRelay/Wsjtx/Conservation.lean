import WavelogRelay.Queue.Cap
import WavelogRelay.Wsjtx.Grammar
import WavelogRelay.Wsjtx.NoLoss

/-!
# WSJT-X — no QSO is made up, and none is multiplied

For one text, what is received of it, what is written of it and what is pushed of it are counted
over a whole run, of any number of processes and with any faults that the file system reports.

* `Holds.step`: a call on the queue puts no text in the file or in memory but the one it appends.
* `credit_step`: a process pushes only what it is credited with, which a start and a reception add
  to and nothing else does.
* `authentic`: so Wavelog is sent only texts that WSJT-X has logged, each at most once by each
  process for each time that it was logged.
-/

namespace WavelogRelay.Wsjtx
open Library Queue Wavelog

/-! ### Copies of a text in the queue -/

/-- How many of the entries have the text `x`. -/
def copies (x : Text) (es : List Entry) : Nat := es.countP fun e => e.adif = x

theorem copies_le {x : Text} {es es' : List Entry} (h : es.Sublist es') :
    copies x es ≤ copies x es' := h.countP_le

theorem copies_snoc (x : Text) (es : List Entry) (e : Entry) :
    copies x (es ++ [e]) = copies x es + (decide (e.adif = x)).toNat := by
  simp only [copies, List.countP_append, List.countP_singleton]
  by_cases h : e.adif = x <;> simp [h]

/-- The call is an append of `x`. -/
def appendsText (x : Text) : Queue.Act → Bool
  | .appended adif _ _ _ => adif = x
  | _ => false

variable {J : SerdeJson} {W : WavelogJson} {x : Text}

/-- The file and the memory hold at most `n` copies of `x` each. -/
structure Holds (J : SerdeJson) (x : Text) (n : Nat) (s : Sys) : Prop where
  shape : ∃ sh : FileShape J, s.disk.Has sh
  file : copies x (s.disk.entryLines J) ≤ n
  memory : ∀ inner, s.proc = some inner → copies x inner.entries ≤ n

theorem Holds.fresh (hJ : J.Strict) : Holds J x 0 Sys.fresh where
  shape := ⟨.empty, rfl⟩
  file := by
    have hempty : Sys.fresh.disk.Has (.empty : FileShape J) := rfl
    rw [entryLines_shape hJ hempty]
    exact Nat.le_of_eq rfl
  memory _ h := by cases h

/-- **A call keeps the count**, but for the entry it appends. -/
theorem Holds.step (hJ : J.Strict) {n : Nat} {s s' : Sys} {a : Queue.Act}
    (h : Queue.Step J s a s') (hh : Holds J x n s) :
    Holds J x (n + (appendsText x a).toNat) s' := by
  obtain ⟨⟨sh, hsh⟩, hfile, hmem⟩ := hh
  obtain ⟨sh', hsh', -⟩ := step_shape hJ h hsh
  suffices hrest : copies x (s'.disk.entryLines J) ≤ n + (appendsText x a).toNat ∧
      ∀ inner, s'.proc = some inner → copies x inner.entries ≤ n + (appendsText x a).toNat from
    ⟨⟨sh', hsh'⟩, hrest.1, hrest.2⟩
  cases h with
  | opened h =>
      obtain ⟨rfl, -⟩ := open_stored h
      refine ⟨Nat.le_trans (copies_le (open_entryLines hJ hsh h)) hfile, fun inner hp => ?_⟩
      cases hp
      exact Nat.le_trans (copies_le (stored_sublist hJ hsh)) hfile
  | openFailed h =>
      exact ⟨Nat.le_trans (copies_le (open_entryLines hJ hsh h)) hfile, fun _ hp => (by cases hp)⟩
  | @appended disk disk' inner inner' adif io res h =>
      obtain ⟨rfl, -⟩ := append_memory h
      have hpushed : copies x (pushed inner adif io.now).entries ≤
          n + (appendsText x (.appended adif io (evicted inner) res)).toNat := by
        rw [pushed_entries]
        refine Nat.le_trans (copies_le (Fifo.push_sublist_append _ _ _)) ?_
        rw [copies_snoc]
        exact Nat.add_le_add_right (hmem inner rfl) _
      refine ⟨?_, fun inner' hp => by cases hp; exact hpushed⟩
      obtain ⟨-, hrw | ⟨rfl, -⟩⟩ | ⟨-, k, hk, -, -⟩ := append_spec hJ.toLawful hsh h
      · rw [entryLines_ofEntries hJ hrw]
        exact hpushed
      · exact Nat.le_add_right_of_le hfile
      · refine Nat.le_trans (copies_le (entryLines_write hJ hsh hk)) ?_
        rw [copies_snoc]
        exact Nat.add_le_add_right hfile _
  | @removed disk disk' inner inner' seq io res h =>
      obtain rfl := remove_memory h
      have hdropped : copies x (dropped inner seq).entries ≤ n :=
        Nat.le_trans (copies_le (Fifo.delete_sublist _)) (hmem inner rfl)
      refine ⟨?_, fun inner' hp => by cases hp; exact hdropped⟩
      rcases remove_spec hJ.toLawful h with hrw | ⟨rfl, -⟩
      · rw [entryLines_ofEntries hJ hrw]
        exact hdropped
      · exact hfile
  | killed => exact ⟨hfile, fun _ hp => (by cases hp)⟩

/-! ### What is counted -/

def Act.receives (x : Text) : Act → Bool
  | .received _ adif => adif = x
  | _ => false

def Act.appends (x : Text) : Act → Bool
  | .appended entry _ _ _ => entry.adif = x
  | _ => false

/-- The worker takes an item, and starts to push it. -/
def Act.takes (x : Text) : Act → Bool
  | .taken item => item.adif = x
  | _ => false

def Act.starts : Act → Bool
  | .opened .. => true
  | _ => false

def receptions (x : Text) (tr : List Act) : Nat := tr.countP (Act.receives x)

def appended (x : Text) (tr : List Act) : Nat := tr.countP (Act.appends x)

def pushes (x : Text) (tr : List Act) : Nat := tr.countP (Act.takes x)

/-- The number of processes that have opened the queue. -/
def starts (tr : List Act) : Nat := tr.countP Act.starts

theorem countP_snoc (f : Act → Bool) (tr : List Act) (a : Act) :
    (tr ++ [a]).countP f = tr.countP f + (f a).toNat := by
  rw [List.countP_append, List.countP_singleton]
  cases f a <;> rfl

section Snoc

variable (tr : List Act) (a : Act)

@[simp] theorem receptions_snoc :
    receptions x (tr ++ [a]) = receptions x tr + (a.receives x).toNat := countP_snoc _ _ _

@[simp] theorem appended_snoc :
    appended x (tr ++ [a]) = appended x tr + (a.appends x).toNat := countP_snoc _ _ _

@[simp] theorem pushes_snoc : pushes x (tr ++ [a]) = pushes x tr + (a.takes x).toNat :=
  countP_snoc _ _ _

@[simp] theorem starts_snoc : starts (tr ++ [a]) = starts tr + a.starts.toNat := countP_snoc _ _ _

end Snoc

/-- The listener has `x` in hand, and is about to append it. -/
def Listener.pending (x : Text) : Listener → Nat
  | .appending adif => (decide (adif = x)).toNat
  | _ => 0

def itemCopies (x : Text) (items : List QueueItem) : Nat := items.countP fun i => i.adif = x

/-- What the process may still take of `x`: what is in hand, and what is on its way. -/
def Proc.credit (x : Text) (p : Proc) : Nat :=
  p.listener.pending x + itemCopies x p.listener.items + itemCopies x p.chan

@[simp] theorem itemCopies_nil : itemCopies x [] = 0 := rfl

@[simp] theorem itemCopies_cons (item : QueueItem) (items : List QueueItem) :
    itemCopies x (item :: items) = itemCopies x items + (decide (item.adif = x)).toNat := by
  rw [itemCopies, List.countP_cons]
  by_cases h : item.adif = x <;> simp [h, itemCopies]

@[simp] theorem itemCopies_append (items items' : List QueueItem) :
    itemCopies x (items ++ items') = itemCopies x items + itemCopies x items' := List.countP_append

theorem itemCopies_replay (es : List Entry) :
    itemCopies x ((es.map Entry.pair).map replayItem) = copies x es := by
  rw [itemCopies, copies, List.map_map, List.countP_map]
  rfl

/-! ### What a step does to the counts -/

section Steps

variable {disk disk' : Disk} {p p' : Proc} {a : Act}

/-- **Only a reception adds to the credit**, and what is taken comes off it. -/
theorem credit_step (h : Step J W ⟨disk, some p⟩ a ⟨disk', some p'⟩) :
    (a.takes x).toNat + p'.credit x ≤ p.credit x + (a.receives x).toNat := by
  unfold Proc.credit
  cases h with
  | received hl | replaySent hl | trySent hl =>
      simp only [hl, Listener.pending, Listener.items, Act.takes, Act.receives, List.map_cons,
        itemCopies_append, itemCopies_cons, itemCopies_nil, Bool.toNat_false]
      omega
  | @appended _ _ _ adif io inner' res hl h =>
      cases res <;>
        simp [hl, afterAppend, Listener.pending, Listener.items, Act.takes, Act.receives]
  | taken hw hchan =>
      simp only [hchan, Act.takes, Act.receives, itemCopies_cons, Bool.toNat_false]
      omega
  | listenerStarts hl | replayDone hl | tryFull hl =>
      simp [hl, Listener.pending, Listener.items, Act.takes, Act.receives]
  | replayNotified hl hc | listenerNotified hl hc =>
      split <;> simp [hl, Listener.pending, Listener.items, Act.takes, Act.receives]
  | workerNotified hw hc | pushNotified hw hc =>
      split <;> simp [Proc.stopWorker, Act.takes, Act.receives]
  | _ => simp [Proc.stopWorker, Listener.pending, Listener.items, Act.takes, Act.receives]

/-- What is appended was in hand. -/
theorem pending_step (h : Step J W ⟨disk, some p⟩ a ⟨disk', some p'⟩) :
    (a.appends x).toNat + p'.listener.pending x ≤
      p.listener.pending x + (a.receives x).toNat := by
  cases h with
  | received hl => simp [hl, Listener.pending, Act.appends, Act.receives]
  | @appended _ _ _ adif io inner' res hl h =>
      rw [hl]
      cases res <;> exact Nat.le_refl _
  | replayNotified hl hc | listenerNotified hl hc =>
      split <;> simp [Listener.pending, Act.appends, Act.receives]
  | workerNotified hw hc | pushNotified hw hc =>
      split <;> simp [Proc.stopWorker, Act.appends, Act.receives]
  | _ => simp [Proc.stopWorker, Listener.pending, Act.appends, Act.receives]

end Steps

/-! ### The books -/

/-- What the running process, if any, has in hand, and what it is credited with. -/
def World.pending (x : Text) (w : World) : Nat := (w.proc.map (·.listener.pending x)).getD 0

def World.credit (x : Text) (w : World) : Nat := (w.proc.map (·.credit x)).getD 0

section Worlds

variable (disk : Disk) (p : Proc)

@[simp] theorem World.pending_none : World.pending x ⟨disk, none⟩ = 0 := rfl

@[simp] theorem World.pending_some : World.pending x ⟨disk, some p⟩ = p.listener.pending x := rfl

@[simp] theorem World.credit_none : World.credit x ⟨disk, none⟩ = 0 := rfl

@[simp] theorem World.credit_some : World.credit x ⟨disk, some p⟩ = p.credit x := rfl

end Worlds

/-- The counts of a run. -/
structure Tally (x : Text) (tr : List Act) (w : World) : Prop where
  started : w.proc.isSome → 0 < starts tr
  appended_le : appended x tr + w.pending x ≤ receptions x tr
  pushes_le : pushes x tr + w.credit x ≤ starts tr * receptions x tr

theorem Tally.fresh : Tally x [] .fresh :=
  ⟨fun h => (by cases h), Nat.le_refl _, Nat.le_refl _⟩

section Tally

variable {disk disk' : Disk} {p p' : Proc} {tr : List Act} {a : Act}

theorem credit_spawn (inner : Inner) (es : List Entry) :
    (Proc.spawn inner (es.map Entry.pair)).credit x = copies x es := by
  simp only [Proc.credit, Proc.spawn, Listener.pending, Listener.items, itemCopies_replay,
    itemCopies_nil, Nat.zero_add, Nat.add_zero]

/-- A process starts with the replay for its credit. -/
theorem Tally.opened {io : OpenIo} {inner : Inner} {replay : Replay}
    (ho : QsoQueue.open J disk io = (.ok (inner, replay), disk'))
    (hh : copies x inner.entries ≤ appended x tr) (ht : Tally x tr ⟨disk, none⟩) :
    Tally x (tr ++ [.opened io replay]) ⟨disk', some (.spawn inner replay)⟩ := by
  obtain ⟨rfl, rfl⟩ := open_stored ho
  obtain ⟨-, happ, hpush⟩ := ht
  rw [World.pending_none] at happ
  rw [World.credit_none] at hpush
  refine ⟨fun _ => ?_, ?_, ?_⟩
  · rw [starts_snoc]
    exact Nat.succ_pos _
  · rw [appended_snoc, receptions_snoc]
    exact happ
  · have hle : copies x (disk.stored J) ≤ receptions x tr := Nat.le_trans hh happ
    rw [pushes_snoc, starts_snoc, receptions_snoc, World.credit_some, credit_spawn]
    calc pushes x tr + copies x (disk.stored J)
        ≤ starts tr * receptions x tr + receptions x tr := Nat.add_le_add hpush hle
      _ = (starts tr + 1) * receptions x tr := (Nat.succ_mul _ _).symm

/-- Without a process nothing is in hand, and nothing to come. -/
theorem Tally.ended {w : World} (ha : a.call = some .killed ∨ ∃ io e, a = .openFailed io e)
    (ht : Tally x tr w) : Tally x (tr ++ [a]) ⟨disk', none⟩ := by
  have hnone : a.appends x = false ∧ a.receives x = false ∧ a.takes x = false ∧
      a.starts = false := by
    rcases ha with ha | ⟨io, e, rfl⟩
    · cases a <;> cases ha <;> exact ⟨rfl, rfl, rfl, rfl⟩
    · exact ⟨rfl, rfl, rfl, rfl⟩
  obtain ⟨happends, hreceives, htakes, hstarts⟩ := hnone
  refine ⟨fun h => (by cases h), ?_, ?_⟩
  · rw [appended_snoc, receptions_snoc, happends, hreceives]
    exact Nat.le_trans (Nat.le_add_right _ _) ht.appended_le
  · rw [pushes_snoc, starts_snoc, receptions_snoc, htakes, hstarts, hreceives]
    exact Nat.le_trans (Nat.le_add_right _ _) ht.pushes_le

/-- What a reception adds to the credit, it adds to the bound at least once. -/
theorem Tally.running (h : Step J W ⟨disk, some p⟩ a ⟨disk', some p'⟩)
    (ht : Tally x tr ⟨disk, some p⟩) : Tally x (tr ++ [a]) ⟨disk', some p'⟩ := by
  obtain ⟨hstarted, happ, hpush⟩ := ht
  have hstart : a.starts = false := by cases h <;> rfl
  have hpending := pending_step (x := x) h
  have hcredit := credit_step (x := x) h
  rw [World.pending_some] at happ
  rw [World.credit_some] at hpush
  refine ⟨fun _ => ?_, ?_, ?_⟩
  · rw [starts_snoc]
    exact Nat.add_pos_left (hstarted rfl) _
  · rw [appended_snoc, receptions_snoc, World.pending_some]
    omega
  · rw [pushes_snoc, starts_snoc, receptions_snoc, hstart, World.credit_some, Bool.toNat_false,
      Nat.add_zero, Nat.mul_add]
    have hmul := Nat.le_mul_of_pos_left (a.receives x).toNat (hstarted rfl)
    omega

end Tally

variable {w w' : World} {tr : List Act} {a : Act}

theorem appendsText_call {q : Queue.Act} (h : a.call = some q) : appendsText x q = a.appends x := by
  cases a <;> cases h <;> rfl

theorem appends_of_not_call (h : a.call = none) : a.appends x = false := by
  cases a with
  | appended => cases h
  | _ => rfl

theorem holds_step (hJ : J.Strict) (hh : Holds J x (appended x tr) w.sys) (h : Step J W w a w') :
    Holds J x (appended x (tr ++ [a])) w'.sys := by
  rw [appended_snoc]
  cases hq : a.call with
  | none =>
      rw [sys_of_not_call h hq, appends_of_not_call hq]
      exact hh
  | some q =>
      rw [← appendsText_call hq]
      exact hh.step hJ (step_queue h hq)

/-- **A step keeps the counts.** -/
theorem Tally.step (ht : Tally x tr w) (hh : Holds J x (appended x (tr ++ [a])) w'.sys)
    (h : Step J W w a w') : Tally x (tr ++ [a]) w' := by
  obtain ⟨disk, _ | p⟩ := w
  · cases h with
    | @opened _ _ io inner replay ho =>
        refine ht.opened ho ?_
        have hmem := hh.memory inner rfl
        rwa [appended_snoc] at hmem
    | openFailed => exact ht.ended (.inr ⟨_, _, rfl⟩)
  · obtain ⟨disk', _ | p'⟩ := w'
    · refine ht.ended (.inl ?_)
      cases h <;> rfl
    · exact ht.running h

/-! ### Every run -/

/-- **What the pipeline does with what WSJT-X logs.** -/
structure Authentic (J : SerdeJson) (tr : List Act) (w : World) : Prop where
  /-- A text is received in a Logged-ADIF message, whole. -/
  logged : ∀ d adif, .received d adif ∈ tr → LoggedAdif d.bytes adif
  /-- The lines of the file hold no more copies of a text than were received, also where one of
  them is torn, and where the file as a whole is no text. -/
  stored : ∀ x, copies x (w.disk.entryLines J) ≤ receptions x tr
  /-- The processes push a text at most once each for each time that it was received. -/
  pushed : ∀ x, pushes x tr ≤ starts tr * receptions x tr

theorem tally_run (hJ : J.Strict) {C : World → Act → Prop}
    (h : Run (Step J W) C World.fresh tr w) (x : Text) :
    Holds J x (appended x tr) w.sys ∧ Tally x tr w := by
  refine h.invariant (I := fun tr w => Holds J x (appended x tr) w.sys ∧ Tally x tr w)
    ⟨.fresh hJ, .fresh⟩ ?_
  intro tr w a w' _ ih _ hs
  have hh := holds_step hJ ih.1 hs
  exact ⟨hh, ih.2.step hh hs⟩

/-- What is received is the text of the datagram, and its fields can be looked up. -/
theorem received_run {C : World → Act → Prop} (h : Run (Step J W) C World.fresh tr w)
    {d : Datagram} {adif : Text} (hr : .received d adif ∈ tr) :
    ∃ summary, receive d = pure (some (adif, summary)) := by
  obtain ⟨tr₁, tr₂, rfl⟩ := List.append_of_mem hr
  obtain ⟨m, m', -, -, hs, -⟩ := h.step_at
  cases hs with
  | received hl hd => exact ⟨_, hd⟩

theorem loggedAdif_of_receive {d : Datagram} {adif : Text} {summary : AdifSummary}
    (h : receive d = pure (some (adif, summary))) : LoggedAdif d.bytes adif := by
  rcases parseLoggedAdif_returns d.bytes with ⟨adif', hp, hl⟩ | ⟨hp, -⟩ | ⟨e, -, hp⟩
  · rw [receive, hp, pure_bind] at h
    simp only [] at h
    cases hs : summarizeAdif adif' with
    | none =>
        rw [hs] at h
        cases h
    | some summary' =>
        rw [hs] at h
        cases h
        exact hl
  · rw [receive, hp] at h
    cases h
  · rw [receive, hp] at h
    cases h

theorem entryLines_le (hJ : J.Strict) {C : World → Act → Prop}
    (h : Run (Step J W) C World.fresh tr w) (x : Text) :
    copies x (w.disk.entryLines J) ≤ receptions x tr := by
  obtain ⟨hh, ht⟩ := tally_run hJ h x
  calc copies x (w.disk.entryLines J)
      ≤ appended x tr := hh.file
    _ ≤ appended x tr + w.pending x := Nat.le_add_right _ _
    _ ≤ receptions x tr := ht.appended_le

theorem stored_le (hJ : J.Strict) {C : World → Act → Prop}
    (h : Run (Step J W) C World.fresh tr w) (x : Text) :
    copies x (w.disk.stored J) ≤ receptions x tr := by
  obtain ⟨sh, hsh⟩ := (tally_run hJ h x).1.shape
  exact Nat.le_trans (copies_le (stored_sublist hJ hsh)) (entryLines_le hJ h x)

/-- **No QSO is made up, and none is multiplied.**  In every run, whichever calls of the file system
report a fault and wherever a process is killed, over any answers and any number of processes. -/
theorem authentic (hJ : J.Strict) (h : Run (Step J W) Always World.fresh tr w) :
    Authentic J tr w where
  logged d adif hr := by
    obtain ⟨summary, hd⟩ := received_run h hr
    exact loggedAdif_of_receive hd
  stored := entryLines_le hJ h
  pushed x := Nat.le_trans (Nat.le_add_right _ _) (tally_run hJ h x).2.pushes_le

/-- A QSO that is received once, and pushed by two processes. -/
def repushActs : List Act := outageActs ++ .opened {} [qsoA.pair] :: replayActs

theorem repush_authentic :
    pushes adifA repushActs = starts repushActs * receptions adifA repushActs ∧
      ∃ w, Run (Step json createdJson) Always World.fresh repushActs w ∧
        Authentic json repushActs w := by
  obtain ⟨disk, hdisk, hrun⟩ := outage_run
  obtain ⟨w, hrun'⟩ := replay_run hdisk
  exact ⟨by decide, w, hrun.trans hrun', authentic json_strict (hrun.trans hrun')⟩

end WavelogRelay.Wsjtx
