import WavelogRelay.Queue.Whole

/-!
# Queue — whether a seq identifies one pending QSO

A start takes the seqs from the file, which anyone may have written, and counts on from the
largest.  `Identifies` is what the worker relies on after it: the replayed seqs differ, counting
on does not overflow, the seqs of the next `2^32` appends are new, and a removal takes one entry.

* `Assigned.run`: in a run of appends and removals the seqs in memory, and those given out, are
  among the replayed ones and the next in the count.
* `identifies_iff`: `Identifies` holds exactly when the seqs in the file differ, none is the last
  one, and no two are almost `2^64` apart.  A start checks none of it.
* `duplicate_seq_removes_two`: two entries with the seq 1.
-/

namespace WavelogRelay.Queue
open Library

/-! ### The seqs of a run -/

/-- The seqs after `start`, `n` of them; the addition wraps. -/
def counted (start : UInt64) (n : Nat) : List UInt64 :=
  (List.range n).map fun i => start + .ofNat i

theorem counted_succ (start : UInt64) (n : Nat) :
    counted start (n + 1) = counted start n ++ [start + .ofNat n] := by
  simp [counted, List.range_succ]

/-- An append or a removal. -/
def Act.isCall : Act → Bool
  | .appended .. | .removed .. => true
  | _ => false

/-- The seq that an append returns. -/
def Act.returned : Act → Option UInt64
  | .appended _ _ _ (.ok seq) => some seq
  | _ => none

/-- The seqs handed out in a run. -/
def handedOut (tr : List Act) : List UInt64 := tr.filterMap Act.returned

/-- What a process keeps after it has replayed `es`, and appended `n` times from `start`. -/
structure Assigned (es : List Entry) (start : UInt64) (n : Nat) (tr : List Act) (inner : Inner) :
    Prop where
  next : inner.nextSeq = start + .ofNat n
  pending : (inner.entries.map (·.seq)).Sublist (es.map (·.seq) ++ counted start n)
  handed : (handedOut tr).Sublist (counted start n)

variable {J : SerdeJson} {disk disk' : Disk} {inner inner' : Inner} {es : List Entry}

namespace Assigned

variable {start : UInt64} {n : Nat} {tr : List Act}

theorem append (h : Assigned es start n tr inner) {adif : Text} {io : AppendIo}
    {ev : List Entry} {res : Except QsoQueueError UInt64}
    (happ : QsoQueue.append J inner disk adif io = (res, inner', disk')) :
    Assigned es start (n + 1) (tr ++ [.appended adif io ev res]) inner' := by
  obtain ⟨rfl, hres⟩ := append_memory happ
  refine ⟨?_, ?_, ?_⟩
  · rw [pushed_nextSeq, h.next, UInt64.add_assoc, UInt64.ofNat_add]
    rfl
  · rw [pushed_entries, counted_succ, ← List.append_assoc, ← h.next]
    refine ((Fifo.push_sublist_append _ _ _).map _).trans ?_
    rw [List.map_append]
    exact h.pending.append (List.Sublist.refl _)
  · rw [handedOut, List.filterMap_append, counted_succ]
    refine h.handed.append ?_
    cases res with
    | error e => exact List.nil_sublist _
    | ok seq =>
        rw [hres seq rfl, h.next]
        exact List.Sublist.refl _

theorem remove (h : Assigned es start n tr inner) {seq : UInt64} {io : RewriteIo}
    {res : Except QsoQueueError Unit}
    (hrem : QsoQueue.remove J inner disk seq io = (res, inner', disk')) :
    Assigned es start n (tr ++ [.removed seq io res]) inner' := by
  obtain rfl := remove_memory hrem
  refine ⟨h.next, ((Fifo.delete_sublist _).map _).trans h.pending, ?_⟩
  have hnone : [Act.removed seq io res].filterMap Act.returned = [] := rfl
  rw [handedOut, List.filterMap_append, hnone, List.append_nil]
  exact h.handed

/-- **In a run of appends and removals** the seqs are the replayed ones and the next in the
count. -/
theorem run {s : Sys}
    (h : Run (Step J) (fun _ a => a.isCall) ⟨disk, some ⟨es, start⟩⟩ tr s) :
    ∃ inner, s.proc = some inner ∧ Assigned es start (appends tr) tr inner := by
  refine h.invariant (I := fun tr s => ∃ inner, s.proc = some inner ∧
    Assigned es start (appends tr) tr inner) ?_ ?_
  · exact ⟨_, rfl, ⟨(UInt64.add_zero start).symm, by simp [counted], List.nil_sublist _⟩⟩
  · rintro tr s a s' - ⟨inner, hp, hi⟩ ha hs
    rw [appends_append_singleton]
    cases hs with
    | appended h => cases hp; exact ⟨_, rfl, hi.append h⟩
    | removed h => cases hp; exact ⟨_, rfl, hi.remove h⟩
    | opened | openFailed | killed => cases ha

end Assigned

/-- A process can append as often as it likes. -/
theorem appending_run (J : SerdeJson) (disk : Disk) (inner : Inner) (n : Nat) :
    ∃ tr s, Run (Step J) (fun _ a => a.isCall) ⟨disk, some inner⟩ tr s ∧ appends tr = n ∧
      handedOut tr = counted inner.nextSeq n ∧
      ∃ inner', s.proc = some inner' ∧ inner'.nextSeq = inner.nextSeq + .ofNat n := by
  induction n with
  | zero => exact ⟨[], _, .nil, rfl, rfl, inner, rfl, (UInt64.add_zero _).symm⟩
  | succ n ih =>
      obtain ⟨tr, ⟨disk', proc⟩, hrun, hn, hout, inner', rfl, hnext⟩ := ih
      have happ : ∃ disk'', QsoQueue.append J inner' disk' [] { now := 0 } =
          (.ok inner'.nextSeq, pushed inner' [] 0, disk'') := by
        by_cases hlen : maxQueueLen < inner'.entries.length + 1
        · exact ⟨_, by simp only [QsoQueue.append, if_pos hlen]; rfl⟩
        · exact ⟨_, by simp only [QsoQueue.append, if_neg hlen]; rfl⟩
      obtain ⟨disk'', happ⟩ := happ
      refine ⟨_, _, hrun.extend (.appended happ) rfl, ?_, ?_, _, rfl, ?_⟩
      · rw [appends_append_singleton, hn]
        rfl
      · rw [handedOut, List.filterMap_append, counted_succ, ← hnext]
        exact congrArg (· ++ _) hout
      · rw [pushed_nextSeq, hnext, UInt64.add_assoc, UInt64.ofNat_add]
        rfl

/-! ### The seqs in the file -/

/-- Any `2^32` seqs counted from the largest of `es` are none of its. -/
structure Countable (es : List Entry) : Prop where
  distinct : (es.map (·.seq)).Nodup
  notLast : ∀ e ∈ es, e.seq ≠ maxSeq
  close : ∀ e ∈ es, ∀ e' ∈ es, e.seq.toNat + 0x100000000 < e'.seq.toNat + UInt64.size

theorem toNat_start_add (start : UInt64) {i : Nat} (hi : i < 0x100000000) :
    (start + .ofNat i).toNat = start.toNat + i ∨
      (start + .ofNat i).toNat + UInt64.size = start.toNat + i := by
  have hstart : start.toNat < UInt64.size := start.toNat_lt_size
  have hsize : UInt64.size = 0x10000000000000000 := rfl
  rw [UInt64.toNat_add, UInt64.toNat_ofNat']
  omega

theorem nodup_counted (start : UInt64) {n : Nat} (hn : n ≤ 0x100000000) :
    (counted start n).Nodup := by
  refine List.Nodup.map_on (fun i hi j hj h => ?_) List.nodup_range
  have hi := List.mem_range.mp hi
  have hj := List.mem_range.mp hj
  have h := UInt64.toNat_inj.mpr h
  have hsize : UInt64.size = 0x10000000000000000 := rfl
  rcases toNat_start_add start (show i < 0x100000000 by omega) with h₁ | h₁ <;>
    rcases toNat_start_add start (show j < 0x100000000 by omega) with h₂ | h₂ <;> omega

/-- The largest seq, if there is one, is the one before the next. -/
theorem nextSeqOf_cases (es : List Entry) (hlast : ∀ e ∈ es, e.seq ≠ maxSeq) :
    es = [] ∨ ∃ m ∈ es, (∀ e ∈ es, e.seq.toNat ≤ m.seq.toNat) ∧
      (nextSeqOf es).toNat = m.seq.toNat + 1 := by
  unfold nextSeqOf
  cases hm : (es.map (·.seq)).max? with
  | none =>
      rw [List.max?_eq_none_iff, List.map_eq_nil_iff] at hm
      exact .inl hm
  | some m =>
      obtain ⟨hmem, hle⟩ := List.max?_eq_some_iff.mp hm
      obtain ⟨e, he, rfl⟩ := List.mem_map.mp hmem
      refine .inr ⟨e, he, fun e' he' => ?_, toNat_add_one (lt_maxSeq_of_ne (hlast e he))⟩
      exact UInt64.le_iff_toNat_le.mp (hle _ (List.mem_map_of_mem he'))

/-- **The seqs counted from such a file are new.** -/
theorem Countable.nodup (h : Countable es) {n : Nat} (hn : n ≤ 0x100000000) :
    (es.map (·.seq) ++ counted (nextSeqOf es) n).Nodup := by
  refine List.nodup_append.mpr ⟨h.distinct, nodup_counted _ hn, ?_⟩
  rintro x hx y hy rfl
  obtain ⟨e, he, rfl⟩ := List.mem_map.mp hx
  obtain ⟨i, hi, hie⟩ := List.mem_map.mp hy
  have hi := List.mem_range.mp hi
  have hie := UInt64.toNat_inj.mpr hie
  rcases nextSeqOf_cases es h.notLast with rfl | ⟨m, hm, hle, hnext⟩
  · cases he
  · have hle := hle e he
    have hclose := h.close m hm e he
    rcases toNat_start_add (nextSeqOf es) (show i < 0x100000000 by omega) with h₁ | h₁ <;> omega

/-! ### After a start -/

/-- **What the worker relies on after a start** that has left `disk`. -/
structure Identifies (J : SerdeJson) (disk : Disk) (inner : Inner) (replay : Replay) : Prop where
  /-- The replayed seqs differ. -/
  distinct : (replay.map (·.1)).Nodup
  /-- Counting on from the largest does not overflow. -/
  noOverflow : ∀ x ∈ replay.map (·.1), x.toNat + 1 < UInt64.size
  /-- The seqs that the next `2^32` appends hand out are new. -/
  fresh : ∀ tr s, Run (Step J) (fun _ a => a.isCall) ⟨disk, some inner⟩ tr s →
    appends tr ≤ 0x100000000 → (replay.map (·.1) ++ handedOut tr).Nodup
  /-- A removal takes the one entry with its seq. -/
  removesOne : ∀ tr s, Run (Step J) (fun _ a => a.isCall) ⟨disk, some inner⟩ tr s →
    appends tr ≤ 0x100000000 → ∀ now, s.proc = some now → ∀ e ∈ now.entries,
      ∃ before after, now.entries = before ++ e :: after ∧
        (dropped now e.seq).entries = before ++ after

variable {io : OpenIo} {replay : Replay}

theorem map_fst_pair (es : List Entry) : (es.map Entry.pair).map (·.1) = es.map (·.seq) := by
  simp [Function.comp_def]

/-- In a list whose seqs differ a removal takes one entry. -/
theorem dropped_of_nodup {inner : Inner} (h : (inner.entries.map (·.seq)).Nodup) {e : Entry}
    (he : e ∈ inner.entries) :
    ∃ before after, inner.entries = before ++ e :: after ∧
      (dropped inner e.seq).entries = before ++ after := by
  obtain ⟨before, after, heq⟩ := List.append_of_mem he
  refine ⟨before, after, heq, ?_⟩
  rw [heq, List.map_append, List.map_cons, List.nodup_middle, List.nodup_cons] at h
  have hne : ∀ x ∈ before ++ after, x.seq ≠ e.seq := fun x hx hxe =>
    h.1 (by rw [← List.map_append, ← hxe]; exact List.mem_map_of_mem hx)
  have hkeep : ∀ l : List Entry, (∀ x ∈ l, x.seq ≠ e.seq) →
      l.filter (fun x => x.seq != e.seq) = l := fun l hl =>
    List.filter_eq_self.mpr fun x hx => bne_iff_ne.mpr (hl x hx)
  show inner.entries.filter (fun x => x.seq != e.seq) = before ++ after
  rw [heq, List.filter_append, List.filter_cons_of_neg (by simp),
    hkeep before fun x hx => hne x (List.mem_append_left _ hx),
    hkeep after fun x hx => hne x (List.mem_append_right _ hx)]

/-- Such a file makes the seqs identify. -/
theorem Countable.identifies (h : Countable es) :
    Identifies J disk ⟨es, nextSeqOf es⟩ (es.map Entry.pair) where
  distinct := by
    rw [map_fst_pair]
    exact h.distinct
  noOverflow x hx := by
    rw [map_fst_pair] at hx
    obtain ⟨e, he, rfl⟩ := List.mem_map.mp hx
    have hlt := UInt64.lt_iff_toNat_lt.mp (lt_maxSeq_of_ne (h.notLast e he))
    rw [toNat_maxSeq] at hlt
    omega
  fresh tr s hrun hn := by
    obtain ⟨_, -, hi⟩ := Assigned.run hrun
    rw [map_fst_pair]
    exact ((h.nodup hn).sublist ((List.Sublist.refl _).append hi.handed))
  removesOne tr s hrun hn now hnow e he := by
    obtain ⟨now', hp, hi⟩ := Assigned.run hrun
    obtain rfl : now' = now := Option.some.inj (hp.symm.trans hnow)
    exact dropped_of_nodup ((h.nodup hn).sublist hi.pending) he

/-- And it is such a file whenever they do. -/
theorem Identifies.countable (h : Identifies J disk ⟨es, nextSeqOf es⟩ (es.map Entry.pair)) :
    Countable es := by
  obtain ⟨hdistinct, hover, hfresh, -⟩ := h
  rw [map_fst_pair] at hdistinct hover
  have hlast : ∀ e ∈ es, e.seq ≠ maxSeq := fun e he heq => by
    have := hover _ (List.mem_map_of_mem he)
    rw [heq, toNat_maxSeq] at this
    exact absurd this (by decide)
  refine ⟨hdistinct, hlast, fun e he e' he' => ?_⟩
  rcases nextSeqOf_cases es hlast with rfl | ⟨m, hm, hle, hnext⟩
  · cases he
  by_contra hfar
  have hle := hle e he
  -- the count from `m` reaches the seq of `e'` after `k` appends
  let k := e'.seq.toNat + UInt64.size - (m.seq.toNat + 1)
  have hm' := m.seq.toNat_lt_size
  have hk : k < 0x100000000 := by omega
  obtain ⟨tr, s, hrun, hn, hout, -⟩ := appending_run J disk ⟨es, nextSeqOf es⟩ (k + 1)
  have hnodup := hfresh tr s hrun (hn ▸ hk)
  rw [map_fst_pair, hout, counted_succ] at hnodup
  have hlast : nextSeqOf es + .ofNat k = e'.seq := by
    apply UInt64.toNat_inj.mp
    have he'' := e'.seq.toNat_lt_size
    have hstart : (nextSeqOf es).toNat < UInt64.size := (nextSeqOf es).toNat_lt_size
    rcases toNat_start_add (nextSeqOf es) hk with h₁ | h₁
    · have := (nextSeqOf es + .ofNat k).toNat_lt_size
      omega
    · omega
  rw [hlast] at hnodup
  exact List.disjoint_of_nodup_append hnodup (List.mem_map_of_mem he') (by simp)

/-- **After a start the seqs identify the pending QSOs exactly when those in the file differ, none
is the last one, and no two are `2^64 - 2^32` or more apart.** -/
theorem identifies_iff (h : QsoQueue.open J disk io = (.ok (inner, replay), disk')) :
    Identifies J disk' inner replay ↔ Countable (disk.stored J) := by
  obtain ⟨rfl, rfl⟩ := open_stored h
  exact ⟨Identifies.countable, Countable.identifies⟩

/-- The queue file that lists some entries. -/
def Disk.listing (es : List Entry) : Disk := ⟨some (utf8 (encode json es)), []⟩

theorem open_listing (es : List Entry) : QsoQueue.open json (Disk.listing es) {} =
    (.ok (⟨es, nextSeqOf es⟩, es.map Entry.pair), Disk.listing es) :=
  open_of_lists json_strict.toLawful rfl (.inr rfl)

/-- Two entries as the queue writes them. -/
theorem two_seqs_identify : Identifies json (Disk.listing [⟨1, ['a'], 0⟩, ⟨2, ['b'], 0⟩])
    ⟨[⟨1, ['a'], 0⟩, ⟨2, ['b'], 0⟩], 3⟩ [(1, ['a']), (2, ['b'])] := by
  refine (identifies_iff (open_listing [⟨1, ['a'], 0⟩, ⟨2, ['b'], 0⟩])).mpr ?_
  have hlists : (Disk.listing [⟨1, ['a'], 0⟩, ⟨2, ['b'], 0⟩]).Lists json _ := .inr rfl
  rw [hlists.stored json_strict.toLawful]
  exact ⟨by decide, by decide, by decide⟩

/-- **A start takes two entries with one seq, and a removal deletes both.** -/
theorem duplicate_seq_removes_two : ¬ ∀ (J : SerdeJson) (disk disk' : Disk) (io : OpenIo)
    (inner : Inner) (replay : Replay), J.Strict →
      QsoQueue.open J disk io = (.ok (inner, replay), disk') → disk'.aside = disk.aside →
        Identifies J disk' inner replay := fun h => by
  have hi := h json _ _ {} _ _ json_strict (open_listing [⟨1, ['a'], 0⟩, ⟨1, ['b'], 0⟩]) rfl
  obtain ⟨before, after, heq, hdropped⟩ :=
    hi.removesOne [] _ .nil (Nat.zero_le _) _ rfl ⟨1, ['a'], 0⟩ (by simp)
  have hlen := congrArg List.length heq
  have hboth : (dropped ⟨[⟨1, ['a'], 0⟩, ⟨1, ['b'], 0⟩], 2⟩ 1).entries = [] := rfl
  have hnil : before ++ after = [] := hdropped.symm.trans hboth
  obtain ⟨rfl, rfl⟩ := List.append_eq_nil_iff.mp hnil
  cases hlen

end WavelogRelay.Queue
