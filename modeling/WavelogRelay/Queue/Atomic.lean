import WavelogRelay.Queue.Durability
import WavelogRelay.Queue.Identity

/-!
# Queue — an append that fails

`append` pushes the entry, evicts and counts before it touches the disk, and undoes none of it
when the disk fails it.  `Atomic` is what is to hold of an append that fails, of the memory, of
the file and of every run of calls after it.

* `failed_append_not_atomic`: it holds of none, whatever the step that failed: memory has changed.
* `failed_append_replayed`: and the ADIF text that the caller was told is not queued comes back,
  with the next rewrite of the file.
-/

namespace WavelogRelay.Queue
open Library

/-- The file lists what memory holds, and no entry has the next seq. -/
structure Agrees (J : SerdeJson) (disk : Disk) (inner : Inner) : Prop where
  file : disk.Lists J inner.entries
  next : ∀ e ∈ inner.entries, e.seq ≠ inner.nextSeq

/-- What the caller asks of the queue, and what the file system does. -/
inductive Request where
  | open (io : OpenIo)
  | append (adif : Text) (io : AppendIo)
  | remove (seq : UInt64) (io : RewriteIo)
  | kill

def Act.request : Act → Request
  | .opened io _ => .open io
  | .openFailed io _ => .open io
  | .appended adif io _ _ => .append adif io
  | .removed seq io _ => .remove seq io
  | .killed => .kill

def Act.evicts : Act → List Entry
  | .appended _ _ ev _ => ev
  | _ => []

/-- What the appends of a run evict. -/
def evictions (tr : List Act) : List Entry := tr.flatMap Act.evicts

/-- An append of `adif` has left the queue `inner` and its file as they were. -/
structure Atomic (J : SerdeJson) (disk : Disk) (inner : Inner) (adif : Text) (disk' : Disk)
    (inner' : Inner) : Prop where
  memory : inner'.entries = inner.entries
  file : disk'.stored J = inner.entries
  /-- No later call brings the text back. -/
  absent : ∀ tr s, Run (Step J) Always ⟨disk', some inner'⟩ tr s →
    ∀ now, s.proc = some now → ∀ e ∈ now.entries, e.adif = adif →
      e ∈ inner.entries ∨ ∃ io, .append adif io ∈ tr.map Act.request
  /-- Nothing is evicted that the same calls do not evict from the queue as it was. -/
  evicts : ∀ tr s tr₀ s₀, Run (Step J) Always ⟨disk', some inner'⟩ tr s →
    Run (Step J) Always ⟨disk, some inner⟩ tr₀ s₀ →
      tr.map Act.request = tr₀.map Act.request →
        ∀ e ∈ inner.entries, e ∈ evictions tr → e ∈ evictions tr₀

variable {J : SerdeJson} {disk disk' : Disk} {inner inner' : Inner}

/-- After a start of a queue file whose seqs identify, memory and file agree. -/
theorem Agrees.of_open (hJ : J.Lawful) {es : List Entry} (hes : disk.Lists J es)
    (hc : Countable es) {io : OpenIo} {replay : Replay}
    (h : QsoQueue.open J disk io = (.ok (inner, replay), disk')) : Agrees J disk' inner := by
  obtain ⟨rfl, hopen⟩ := open_lists hJ hes h
  obtain ⟨rfl, -⟩ := hopen _ _ rfl
  refine ⟨hes, fun e he heq => ?_⟩
  rcases nextSeqOf_cases es hc.notLast with rfl | ⟨m, -, hle, hnext⟩
  · cases he
  · have hle := hle e he
    have heq : e.seq = nextSeqOf es := heq
    rw [heq, hnext] at hle
    exact Nat.not_succ_le_self _ hle

/-- The last entry of the memory an append leaves is the one it made. -/
theorem getLast?_pushed (inner : Inner) (adif : Text) (now : UInt64) :
    (pushed inner adif now).entries.getLast? = some (newEntry inner adif now) := by
  have hpos := maxQueueLen_pos
  rw [pushed_entries, Fifo.push_eq hpos]
  simp

/-- **An append that fails is never atomic**: the entry it made is in memory. -/
theorem failed_append_not_atomic (hq : Agrees J disk inner) {adif : Text} {io : AppendIo}
    {e : QsoQueueError} (h : QsoQueue.append J inner disk adif io = (.error e, inner', disk')) :
    ¬ Atomic J disk inner adif disk' inner' := by
  intro ha
  obtain ⟨rfl, -⟩ := append_memory h
  have hlast := getLast?_pushed inner adif io.now
  rw [ha.memory] at hlast
  exact hq.next _ (List.mem_of_getLast? hlast) rfl

/-! ### A file that does not open -/

/-- The first append of a fresh queue, whose file does not open. -/
theorem append_open_fails : QsoQueue.append json ⟨[], 1⟩ ⟨none, []⟩ ['A']
    { now := 0, line := .openFails } = (.error (.io .other), ⟨[entryA], 2⟩, ⟨none, []⟩) := by
  decide +kernel

theorem fresh_agrees : Agrees json ⟨none, []⟩ ⟨[], 1⟩ := ⟨.inl ⟨rfl, rfl⟩, fun _ he => by cases he⟩

theorem open_failure_not_atomic :
    ¬ Atomic json ⟨none, []⟩ ⟨[], 1⟩ ['A'] ⟨none, []⟩ ⟨[entryA], 2⟩ :=
  failed_append_not_atomic fresh_agrees append_open_fails

/-- **A QSO whose append failed is replayed**: the next removal rewrites the file from memory. -/
theorem failed_append_replayed : ¬ ∀ (J : SerdeJson), J.Strict →
    ∀ disk inner adif io e inner' disk', Agrees J disk inner →
      QsoQueue.append J inner disk adif io = (.error e, inner', disk') →
        Atomic J disk inner adif disk' inner' := fun h => by
  have ha := h json json_strict _ _ _ _ _ _ _ fresh_agrees append_open_fails
  have h₁ : Step json ⟨⟨none, []⟩, some ⟨[entryA], 2⟩⟩ (.appended ['B'] { now := 0 } [] (.ok 2))
      ⟨⟨some (lineBytes json entryB), []⟩, some ⟨[entryA, entryB], 3⟩⟩ :=
    .append_of (by decide +kernel) (by decide +kernel)
  have h₂ : Step json ⟨⟨some (lineBytes json entryB), []⟩, some ⟨[entryA, entryB], 3⟩⟩
      (.removed 2 .ok (.ok ())) ⟨⟨some (lineBytes json entryA), []⟩, some ⟨[entryA], 3⟩⟩ :=
    .removed (by decide +kernel)
  have h₃ : Step json ⟨⟨some (lineBytes json entryA), []⟩, none⟩ (.opened {} [(1, ['A'])])
      ⟨⟨some (lineBytes json entryA), []⟩, some ⟨[entryA], 2⟩⟩ := .opened (by decide +kernel)
  have hrun : Run (Step json) Always ⟨⟨none, []⟩, some ⟨[entryA], 2⟩⟩ _ _ :=
    (((Run.nil.extend h₁ trivial).extend h₂ trivial).extend .killed trivial).extend h₃ trivial
  obtain hold | ⟨io, hnew⟩ := ha.absent _ _ hrun _ rfl entryA (by simp) rfl
  · cases hold
  · simp [Act.request] at hnew

end WavelogRelay.Queue
