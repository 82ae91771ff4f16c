import WavelogRelay.Queue.Calls

/-!
# Queue — without faults, a bounded FIFO across restarts

`fifo tr` is the list that the appends and removals of a run build: an append pushes at the back
and drops from the front what exceeds the bound, a removal deletes a seq, a restart changes
nothing.

* `queue_refines_fifo`: in every run without faults the file, the memory and each replay are that
  list.  `Mirrors` is the invariant; `open_of_lists`, `append_of_lists` and
  `remove_of_lists` are one step of each call.
-/

namespace WavelogRelay.Queue
open Library

/-! ### The abstract queue -/

def fifoStep (q : List Entry) : Act → List Entry
  | .appended adif io _ (.ok seq) =>
      Fifo.push maxQueueLen q { seq, adif, receivedAt := io.now }
  | .removed seq _ _ => Fifo.delete (·.seq) seq q
  | _ => q

def fifo (tr : List Act) : List Entry := tr.foldl fifoStep []

@[simp] theorem fifo_append_singleton (tr : List Act) (a : Act) :
    fifo (tr ++ [a]) = fifoStep (fifo tr) a := by
  simp [fifo]

/-- No call to the file system fails. -/
def Act.NoFault : Act → Prop
  | .opened io _ => io = { now := io.now }
  | .openFailed io _ => io = { now := io.now }
  | .appended _ io _ _ => io = { now := io.now }
  | .removed _ io _ => io = .ok
  | .killed => True

def Act.Succeeds : Act → Prop
  | .openFailed .. => False
  | .appended _ _ _ res => ∃ seq, res = .ok seq
  | .removed _ _ res => res = .ok ()
  | _ => True

/-- The file and the memory are the list `q`. -/
structure Mirrors (J : SerdeJson) (s : Sys) (q : List Entry) : Prop where
  file : s.disk.file = none ∧ q = [] ∨ ∃ contents, s.disk.file = some (utf8 contents) ∧
    parseEntries J contents = some { entries := q, trailingDropped := false }
  memory : ∀ inner, s.proc = some inner → inner.entries = q
  bounded : q.length ≤ maxQueueLen
  sorted : Fifo.Sorted (·.seq) q
  below : ∀ inner, s.proc = some inner → ∀ e ∈ q, e.seq < inner.nextSeq

variable {J : SerdeJson}

/-! ### One call -/

/-- **The encoder and the decoder agree**, on every list of entries. -/
theorem parse_encode (hJ : J.Lawful) (es : List Entry) :
    parseEntries J (encode J es) = some { entries := es, trailingDropped := false } := by
  have hplain : ∀ l ∈ es.map J.toString, Plain l := fun l hl => by
    obtain ⟨e, -, rfl⟩ := List.mem_map.mp hl
    exact hJ.plain List.prefix_rfl (hJ.toString_ne_nil e)
  have hcontents : encode J es = (es.map J.toString).flatMap (· ++ ['\n']) ++ [] := by
    simp [encode, List.flatMap_map]
  have hread : (es.map J.toString).map J.fromStr = es.map some := by
    simp [Function.comp_def, hJ.round_trip]
  rw [hcontents, parseEntries_of_plain hplain (.inl rfl), if_pos rfl, List.append_nil]
  rcases parseLines_cases J (es.map J.toString) [] with ⟨es', hm, hp⟩ | ⟨es', hm, -⟩ |
    ⟨pre, post, hm, -, -⟩ <;> rw [hread] at hm
  · have hes : es = es' := List.map_injective_iff.mpr (fun _ _ => Option.some.inj) hm
    rw [hp, hes, List.nil_append]
  · have : none ∈ es.map some := hm ▸ (by simp)
    simp at this
  · have : none ∈ es.map some := hm ▸ (by simp)
    simp at this

/-- The file of a queue: none yet, or its lines. -/
def Disk.Lists (J : SerdeJson) (disk : Disk) (q : List Entry) : Prop :=
  disk.file = none ∧ q = [] ∨ disk.file = some (utf8 (encode J q))

theorem Disk.Lists.getD {disk : Disk} {q : List Entry} (h : disk.Lists J q) :
    disk.file.getD [] = utf8 (encode J q) := by
  rcases h with ⟨h, rfl⟩ | h <;> rw [h] <;> rfl

theorem open_of_lists (hJ : J.Lawful) {disk : Disk} {q : List Entry} {io : OpenIo}
    (hio : io = { now := io.now }) (h : disk.Lists J q) :
    QsoQueue.open J disk io =
      (.ok ({ entries := q, nextSeq := nextSeqOf q }, q.map Entry.pair), disk) := by
  rw [hio]
  rcases h with ⟨hfile, rfl⟩ | hfile
  · simp [QsoQueue.open, loadEntries, readToString, hfile, Except.map]
  · simp [QsoQueue.open, loadEntries, readToString, hfile, parse_encode hJ, Except.map]

theorem append_of_lists {disk : Disk} {inner : Inner} (adif : Text) {io : AppendIo}
    (hio : io = { now := io.now }) (h : disk.Lists J inner.entries) :
    ∃ disk', QsoQueue.append J inner disk adif io =
        (.ok inner.nextSeq, pushed inner adif io.now, disk') ∧
      disk'.Lists J (pushed inner adif io.now).entries := by
  rw [hio]
  by_cases hlen : maxQueueLen < inner.entries.length + 1
  · refine ⟨_, by simp only [QsoQueue.append, if_pos hlen]; rfl, .inr rfl⟩
  · refine ⟨_, by simp only [QsoQueue.append, if_neg hlen]; rfl, .inr ?_⟩
    simp only [appendLine]
    rw [h.getD, pushed_entries, Fifo.push_of_lt (by omega), encode_append, utf8_append]
    simp [encode, lineBytes, newEntry]

/-- An append below the bound. -/
theorem append_below {disk : Disk} {es : List Entry} (seq : UInt64) (adif : Text) (now : UInt64)
    (hlen : es.length < maxQueueLen) (h : disk.Lists J es) :
    ∃ disk', QsoQueue.append J ⟨es, seq⟩ disk adif { now } =
        (.ok seq, ⟨es ++ [{ seq, adif, receivedAt := now }], seq + 1⟩, disk') ∧
      disk'.Lists J (es ++ [{ seq, adif, receivedAt := now }]) := by
  let inner : Inner := ⟨es, seq⟩
  have hinner : disk.Lists J inner.entries := h
  obtain ⟨disk', happ, hdisk'⟩ := append_of_lists adif (rfl : ({ now } : AppendIo) = _) hinner
  have hpushed : pushed inner adif now =
      ⟨es ++ [{ seq, adif, receivedAt := now }], seq + 1⟩ := pushed_of_lt hlen adif now
  rw [hpushed] at happ hdisk'
  exact ⟨disk', happ, hdisk'⟩

theorem remove_of_lists {disk : Disk} (inner : Inner) (seq : UInt64)
    (h : disk.Lists J inner.entries) :
    ∃ disk', QsoQueue.remove J inner disk seq .ok = (.ok (), dropped inner seq, disk') ∧
      disk'.Lists J (dropped inner seq).entries := by
  by_cases hlen : (inner.entries.filter (·.seq != seq)).length = inner.entries.length
  · refine ⟨disk, by simp only [QsoQueue.remove, if_pos hlen]; rfl, ?_⟩
    have hself : (dropped inner seq).entries = inner.entries := Fifo.delete_eq_self hlen
    rwa [hself]
  · exact ⟨_, by simp only [QsoQueue.remove, if_neg hlen]; rfl, .inr rfl⟩

/-! ### Runs -/

/-- What a run without faults keeps, after `n` appends. -/
structure Tracks (J : SerdeJson) (n : Nat) (s : Sys) (q : List Entry) : Prop where
  file : s.disk.Lists J q
  memory : ∀ inner, s.proc = some inner → inner.entries = q ∧ inner.nextSeq.toNat ≤ n + 1 ∧
    ∀ e ∈ q, e.seq < inner.nextSeq
  bounded : q.length ≤ maxQueueLen
  sorted : Fifo.Sorted (·.seq) q
  counted : ∀ e ∈ q, e.seq.toNat ≤ n

theorem Tracks.mirrors (hJ : J.Lawful) {n : Nat} {s : Sys} {q : List Entry}
    (h : Tracks J n s q) : Mirrors J s q where
  file := h.file.imp_right fun hf => ⟨_, hf, parse_encode hJ q⟩
  memory inner hp := (h.memory inner hp).1
  bounded := h.bounded
  sorted := h.sorted
  below inner hp := (h.memory inner hp).2.2

/-- An append of a number that is the next one. -/
theorem Tracks.append {n : Nat} {disk disk' : Disk} {inner : Inner} {q : List Entry} {adif : Text}
    {now : UInt64} (ht : Tracks J n ⟨disk, some inner⟩ q) (hn : n + 1 < UInt64.size - 1)
    (hfile : disk'.Lists J (pushed inner adif now).entries) :
    Tracks J (n + 1) ⟨disk', some (pushed inner adif now)⟩ (pushed inner adif now).entries := by
  obtain ⟨hmem, hnext, hbelow⟩ := ht.memory inner rfl
  have hwrap : inner.nextSeq < maxSeq := lt_maxSeq (Nat.lt_of_le_of_lt hnext hn)
  have hin : ∀ e ∈ (pushed inner adif now).entries, e ∈ q ∨ e.seq = inner.nextSeq := by
    intro e he
    rw [pushed_entries, hmem] at he
    rcases List.mem_append.mp ((Fifo.push_sublist_append _ _ _).subset he) with he | he
    · exact .inl he
    · exact .inr (by rw [List.mem_singleton.mp he]; rfl)
  refine ⟨hfile, ?_, ?_, ?_, ?_⟩
  · intro inner' hp
    cases Option.some.inj hp
    refine ⟨rfl, ?_, fun e he => ?_⟩
    · rw [pushed_nextSeq, toNat_add_one hwrap]
      exact Nat.succ_le_succ hnext
    · rcases hin e he with he | he
      · exact lt_add_one (UInt64.le_of_lt (hbelow e he)) hwrap
      · rw [he]
        exact lt_add_one (UInt64.le_refl _) hwrap
  · rw [pushed_entries]
    exact Fifo.length_push_le _ _
  · rw [pushed_entries, hmem]
    exact ht.sorted.push _ hbelow
  · intro e he
    rcases hin e he with he | he
    · exact Nat.le_succ_of_le (ht.counted e he)
    · rw [he]
      exact hnext

theorem Tracks.remove {n : Nat} {disk disk' : Disk} {inner : Inner} {q : List Entry} {seq : UInt64}
    (ht : Tracks J n ⟨disk, some inner⟩ q) (hfile : disk'.Lists J (dropped inner seq).entries) :
    Tracks J n ⟨disk', some (dropped inner seq)⟩ (dropped inner seq).entries := by
  obtain ⟨rfl, hnext, hbelow⟩ := ht.memory inner rfl
  have hin : ∀ e ∈ (dropped inner seq).entries, e ∈ inner.entries := fun e he =>
    (Fifo.delete_sublist _).subset he
  refine ⟨hfile, ?_, Nat.le_trans (Fifo.length_delete_le _) ht.bounded, ht.sorted.delete seq,
    fun e he => ht.counted e (hin e he)⟩
  intro inner' hp
  cases Option.some.inj hp
  exact ⟨rfl, hnext, fun e he => hbelow e (hin e he)⟩

/-- **One call keeps the queue a FIFO**, and succeeds. -/
theorem Tracks.step (hJ : J.Lawful) {n : Nat} {s s' : Sys} {q : List Entry} {a : Act}
    (h : Step J s a s') (hio : a.NoFault)
    (hn : (n + if a.isAppend then 1 else 0) < UInt64.size - 1) (ht : Tracks J n s q) :
    Tracks J (n + if a.isAppend then 1 else 0) s' (fifoStep q a) ∧ a.Succeeds ∧
      ∀ io replay, a = .opened io replay → replay = q.map Entry.pair := by
  cases h with
  | opened h =>
      rw [open_of_lists hJ hio ht.file] at h
      cases h
      refine ⟨⟨ht.file, ?_, ht.bounded, ht.sorted, ht.counted⟩, trivial, ?_⟩
      · intro inner hp
        cases Option.some.inj hp
        exact ⟨rfl, nextSeqOf_le ht.counted,
          lt_nextSeqOf fun e he => lt_maxSeq (Nat.lt_of_le_of_lt (ht.counted e he) hn)⟩
      · intro io replay h
        exact (Act.opened.inj h).2.symm
  | openFailed h =>
      rw [open_of_lists hJ hio ht.file] at h
      cases h
  | @appended disk disk' inner inner' adif io res h =>
      obtain ⟨hmem, -, -⟩ := ht.memory inner rfl
      obtain ⟨disk₁, hap, hfile⟩ := append_of_lists adif hio (hmem ▸ ht.file)
      rw [hap] at h
      obtain ⟨rfl, rfl, rfl⟩ : _ ∧ _ ∧ _ := by simpa using h
      have hq : fifoStep q (.appended adif io (evicted inner) (.ok inner.nextSeq)) =
          (pushed inner adif io.now).entries := by
        rw [pushed_entries, hmem]
        rfl
      rw [hq]
      exact ⟨ht.append hn hfile, ⟨_, rfl⟩, by rintro _ _ ⟨⟩⟩
  | @removed disk disk' inner inner' seq io res h =>
      obtain ⟨hmem, -, -⟩ := ht.memory inner rfl
      obtain ⟨disk₁, hrm, hfile⟩ := remove_of_lists _ seq (hmem ▸ ht.file)
      obtain rfl : io = .ok := hio
      rw [hrm] at h
      obtain ⟨rfl, rfl, rfl⟩ : _ ∧ _ ∧ _ := by simpa using h
      have hq : fifoStep q (.removed seq .ok (.ok ())) = (dropped inner seq).entries := by
        rw [dropped, hmem]
        rfl
      rw [hq]
      exact ⟨ht.remove hfile, rfl, by rintro _ _ ⟨⟩⟩
  | killed =>
      refine ⟨⟨ht.file, ?_, ht.bounded, ht.sorted, ht.counted⟩, trivial, ?_⟩
      · rintro _ ⟨⟩
      · rintro _ _ ⟨⟩

theorem Tracks.run (hJ : J.Lawful) {tr : List Act} {s : Sys}
    (h : Run (Step J) (fun _ a => a.NoFault) Sys.fresh tr s) (hn : appends tr < UInt64.size - 1) :
    Tracks J (appends tr) s (fifo tr) ∧ ∀ a ∈ tr, a.Succeeds := by
  refine h.invariant (I := fun tr s => appends tr < UInt64.size - 1 →
    Tracks J (appends tr) s (fifo tr) ∧ ∀ a ∈ tr, a.Succeeds) ?_ ?_ hn
  · exact fun _ => ⟨⟨.inl ⟨rfl, rfl⟩, nofun, Nat.zero_le _, .nil, nofun⟩, nofun⟩
  · intro tr s a s' _ ih hio hstep hn
    rw [appends_append_singleton] at hn ⊢
    rw [fifo_append_singleton]
    obtain ⟨ht, hs⟩ := ih (Nat.lt_of_le_of_lt (Nat.le_add_right _ _) hn)
    obtain ⟨ht', hs', -⟩ := ht.step hJ hstep hio hn
    refine ⟨ht', fun b hb => ?_⟩
    rcases List.mem_append.mp hb with hb | hb
    · exact hs b hb
    · exact List.mem_singleton.mp hb ▸ hs'

/-- **Without faults the queue is a bounded FIFO across restarts**: every call succeeds, the file
and the memory are the list, and each restart replays it. -/
theorem queue_refines_fifo (hJ : J.Lawful) {tr : List Act} {s : Sys}
    (h : Run (Step J) (fun _ a => a.NoFault) Sys.fresh tr s) (hn : appends tr < UInt64.size - 1) :
    Mirrors J s (fifo tr) ∧ (∀ a ∈ tr, a.Succeeds) ∧
      ∀ tr₁ io replay tr₂, tr = tr₁ ++ .opened io replay :: tr₂ →
        replay = (fifo tr₁).map Entry.pair := by
  obtain ⟨htracks, hsucc⟩ := Tracks.run hJ h hn
  refine ⟨htracks.mirrors hJ, hsucc, ?_⟩
  rintro tr₁ io replay tr₂ rfl
  obtain ⟨m, m', h₁, hio, hstep, -⟩ := h.step_at
  have hn₁ : appends tr₁ < UInt64.size - 1 := by
    simp only [appends, List.countP_append] at hn ⊢
    omega
  exact ((Tracks.run hJ h₁ hn₁).1.step hJ hstep hio hn₁).2.2 io replay rfl

/-- An entry with a newline in its text, and a removal of the one before it, across a restart. -/
theorem removal_mirrors_across_restart :
    Mirrors json
      ⟨⟨some (lineBytes json ⟨2, ['\n'], 0⟩), []⟩, some ⟨[⟨2, ['\n'], 0⟩], 3⟩⟩
      (fifo [.opened {} [], .appended ['A'] { now := 0 } [] (.ok 1),
        .appended ['\n'] { now := 0 } [] (.ok 2), .removed 1 .ok (.ok ()), .killed,
        .opened {} [(2, ['\n'])]]) := by
  have h₁ : Step json ⟨⟨none, []⟩, some ⟨[], 1⟩⟩ (.appended ['A'] { now := 0 } [] (.ok 1))
      ⟨⟨some (lineBytes json ⟨1, ['A'], 0⟩), []⟩, some ⟨[⟨1, ['A'], 0⟩], 2⟩⟩ :=
    .append_of (by decide +kernel) (by decide +kernel)
  have h₂ : Step json ⟨⟨some (lineBytes json ⟨1, ['A'], 0⟩), []⟩, some ⟨[⟨1, ['A'], 0⟩], 2⟩⟩
      (.appended ['\n'] { now := 0 } [] (.ok 2))
      ⟨⟨some (lineBytes json ⟨1, ['A'], 0⟩ ++ lineBytes json ⟨2, ['\n'], 0⟩), []⟩,
        some ⟨[⟨1, ['A'], 0⟩, ⟨2, ['\n'], 0⟩], 3⟩⟩ :=
    .append_of (by decide +kernel) (by decide +kernel)
  have h₃ : Step json
      ⟨⟨some (lineBytes json ⟨1, ['A'], 0⟩ ++ lineBytes json ⟨2, ['\n'], 0⟩), []⟩,
        some ⟨[⟨1, ['A'], 0⟩, ⟨2, ['\n'], 0⟩], 3⟩⟩
      (.removed 1 .ok (.ok ()))
      ⟨⟨some (lineBytes json ⟨2, ['\n'], 0⟩), []⟩, some ⟨[⟨2, ['\n'], 0⟩], 3⟩⟩ :=
    .removed (by decide +kernel)
  have h₄ : Step json ⟨⟨some (lineBytes json ⟨2, ['\n'], 0⟩), []⟩, none⟩
      (.opened {} [(2, ['\n'])])
      ⟨⟨some (lineBytes json ⟨2, ['\n'], 0⟩), []⟩, some ⟨[⟨2, ['\n'], 0⟩], 3⟩⟩ :=
    .opened (by decide +kernel)
  have hrun := (((((Run.nil.extend opened_fresh rfl).extend h₁ rfl).extend h₂ rfl).extend h₃
    rfl).extend .killed trivial).extend h₄ (C := fun _ a => a.NoFault) rfl
  exact (queue_refines_fifo json_strict.toLawful hrun (by decide)).1

end WavelogRelay.Queue
