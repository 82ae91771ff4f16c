import WavelogRelay.Queue.Durability
import WavelogRelay.Queue.Whole

/-!
# Queue — how many entries the file holds

The bound is on the entries in memory.  A call changes the memory before the file, so after a
removal that fails the file holds entries that memory does not, `leftBehind`, and an append that
finds room in memory writes one more line.

* `capped_of_fits`: in every run where each such append finds room for those too, the file never
  holds more than `maxQueueLen` entries, and no start replays more.  A call may fail anywhere,
  inside a line as well.
* `fits_of_removals`: a run in which no removal fails before the rename is such a run.
* `cap_exceeded`: a full queue, a removal that fails, and an append.
-/

namespace WavelogRelay.Queue
open Library

variable {J : SerdeJson}

/-- The entry in a line of the file, if there is one. -/
def entryOf (J : SerdeJson) (line : Bytes) : Option Entry := (fromUtf8 line).bind J.fromStr

/-- The entries in the lines of the queue file, each line read by itself: a line that is torn, or
no text, holds none, and does not take the others with it. -/
def Disk.entryLines (J : SerdeJson) (disk : Disk) : List Entry :=
  ((disk.file.getD []).splitOn 10).filterMap (entryOf J)

/-- The entries of the file that memory does not hold, with their number. -/
def leftBehind (J : SerdeJson) (disk : Disk) (inner : Inner) : List Entry :=
  (disk.entryLines J).diff inner.entries

/-- An append that finds room in memory, and writes, finds room for what was left behind as
well. -/
def Fits (J : SerdeJson) (s : Sys) : Act → Prop
  | .appended _ io _ _ => ∀ inner, s.proc = some inner → inner.entries.length < maxQueueLen →
      io.line.Writes → inner.entries.length + (leftBehind J s.disk inner).length < maxQueueLen
  | _ => True

/-! ### The file -/

theorem fromStr_nil (hJ : J.Strict) : J.fromStr [] = none := by
  have e : Entry := ⟨0, [], 0⟩
  exact hJ.truncated e [] List.nil_prefix (hJ.toLawful.toString_ne_nil e).symm

theorem not_mem_lineOf (hJ : J.Lawful) (ps : List (Piece J)) : (10 : UInt8) ∉ lineOf ps := by
  intro hmem
  obtain ⟨p, -, hp⟩ := List.mem_flatMap.mp hmem
  refine not_mem_utf8 (fun hn => ?_) (p.within.subset hp)
  exact absurd (hJ.no_control _ _ hn) (by decide)

/-- A line of pieces that is no text is not one whole piece. -/
theorem entryOf_lineOf (hJ : J.Strict) {ps : List (Piece J)} (hne : ps ≠ []) :
    entryOf J (lineOf ps) = readLine ps := by
  unfold entryOf
  cases ht : fromUtf8 (lineOf ps) with
  | some t => exact (readLine_spec hJ hne (fromUtf8_eq_some_iff.mp ht).symm).2
  | none =>
      match ps with
      | [p] =>
          have hw : ¬ p.IsWhole := fun hw => by
            rw [lineOf_cons, lineOf_nil, List.append_nil, hw, fromUtf8_utf8] at ht
            cases ht
          exact (if_neg hw).symm
      | _ :: _ :: _ => rfl

theorem filterMap_entryOf (hJ : J.Strict) (tail : List (Piece J)) :
    ∀ lns : List (List (Piece J)), (∀ ps ∈ lns, ps ≠ []) →
      ((lns.flatMap (fun ps => lineOf ps ++ [10]) ++ lineOf tail).splitOn 10).filterMap
        (entryOf J) = (lns.map readLine).reduceOption ++ [lineOf tail].filterMap (entryOf J)
  | [], _ => by
      rw [List.flatMap_nil, List.nil_append, List.splitOn_eq_singleton (not_mem_lineOf hJ.1 _)]
      rfl
  | ps :: lns, hne => by
      have hline := entryOf_lineOf hJ (hne ps List.mem_cons_self)
      have ih := filterMap_entryOf hJ tail lns fun qs hqs => hne qs (List.mem_cons_of_mem ps hqs)
      rw [List.flatMap_cons, List.append_assoc, List.append_assoc, List.singleton_append,
        List.splitOn_append_cons_self_of_not_mem (not_mem_lineOf hJ.1 ps), List.filterMap_cons,
        hline, ih, List.map_cons]
      cases readLine ps with
      | none => rw [List.reduceOption_cons_of_none]
      | some e => rw [List.reduceOption_cons_of_some, List.cons_append]

/-- **The lines of a file of a shape**, text or not. -/
theorem entryLines_shape (hJ : J.Strict) {disk : Disk} {sh : FileShape J} (hsh : disk.Has sh) :
    disk.entryLines J = sh.entries := by
  rw [Disk.entryLines, hsh, FileShape.bytes, filterMap_entryOf hJ _ _ sh.lines_ne,
    FileShape.entries, FileShape.reads, List.reduceOption_append]
  congr 1
  by_cases htail : sh.tail = []
  · have hnil : entryOf J [] = none := fromStr_nil hJ
    rw [htail, lineOf_nil, if_pos rfl, List.filterMap_cons_none hnil]
    rfl
  · rw [if_neg htail, List.filterMap_cons, entryOf_lineOf hJ htail, List.reduceOption_singleton]
    cases readLine sh.tail <;> rfl

theorem entryLines_ofEntries (hJ : J.Strict) {disk : Disk} {es : List Entry}
    (h : disk.Has (FileShape.ofEntries hJ.toLawful es)) : disk.entryLines J = es := by
  rw [entryLines_shape hJ h, FileShape.entries_ofEntries]

/-- **A write to the end** adds at most its entry to the lines of the file. -/
theorem entryLines_write (hJ : J.Strict) {disk disk' : Disk} {sh : FileShape J} {e : Entry}
    {n : Nat} (hsh : disk.Has sh) (hsh' : disk'.Has (sh.write hJ.toLawful e n)) :
    (disk'.entryLines J).Sublist (disk.entryLines J ++ [e]) := by
  rw [entryLines_shape hJ hsh', entryLines_shape hJ hsh]
  exact FileShape.entries_write_sublist _ _ _ _

theorem parseLines_entries (ls : List Text) {outcome : ParseOutcome}
    (h : parseLines J ls [] = some outcome) : outcome.entries = ls.filterMap J.fromStr := by
  have hmap : ls.filterMap J.fromStr = (ls.map J.fromStr).filterMap id := by
    rw [List.filterMap_map]
    rfl
  rcases parseLines_cases J ls [] with ⟨es, hm, hp⟩ | ⟨es, hm, hp⟩ | ⟨-, -, -, -, hp⟩ <;>
    rw [h] at hp <;> cases hp
  · rw [hmap, hm]
    simp
  · rw [hmap, hm]
    simp

/-- What a start replays is among the lines of the file. -/
theorem stored_sublist (hJ : J.Strict) {disk : Disk} {sh : FileShape J} (hsh : disk.Has sh) :
    (disk.stored J).Sublist (disk.entryLines J) := by
  rw [entryLines_shape hJ hsh]
  unfold Disk.stored
  cases hfile : disk.file with
  | none => exact List.nil_sublist _
  | some bytes =>
      rw [Disk.Has, hfile, Option.getD_some] at hsh
      cases ht : fromUtf8 bytes with
      | none => simp [ht]
      | some t =>
          simp only [Option.bind_some, ht]
          cases hp : parseEntries J t with
          | none => exact List.nil_sublist _
          | some outcome =>
              have hreads := lines_shape hJ ((fromUtf8_eq_some_iff.mp ht).symm.trans hsh)
              simp only [parseLines_entries _ hp]
              rw [FileShape.entries, ← hreads, List.reduceOption, List.filterMap_map]
              exact List.Sublist.refl _

/-! ### The steps -/

variable {s s' : Sys} {a : Act}

/-- **A start adds nothing to the lines of the file.** -/
theorem open_entryLines (hJ : J.Strict) {disk disk' : Disk} {sh : FileShape J} {io : OpenIo}
    {res : Except QsoQueueError (Inner × Replay)} (hsh : disk.Has sh)
    (h : QsoQueue.open J disk io = (res, disk')) :
    (disk'.entryLines J).Sublist (disk.entryLines J) := by
  obtain ⟨sh', ⟨hsh', -, hent, -⟩, -⟩ := open_spec hJ hsh h
  rw [entryLines_shape hJ hsh', entryLines_shape hJ hsh]
  exact hent

theorem length_diff_add (l₁ l₂ : List Entry) :
    l₁.length ≤ l₂.length + (l₁.diff l₂).length := by
  induction l₂ generalizing l₁ with
  | nil => simp
  | cons a l₂ ih =>
      have h₁ := ih (l₁.erase a)
      have h₂ : l₁.length ≤ (l₁.erase a).length + 1 := by
        rw [List.length_erase]
        split <;> omega
      rw [List.diff_cons, List.length_cons]
      omega

/-- What every run within the condition keeps. -/
structure Capped (J : SerdeJson) (s : Sys) : Prop where
  shape : ∃ sh : FileShape J, s.disk.Has sh
  file : (s.disk.entryLines J).length ≤ maxQueueLen
  memory : ∀ inner, s.proc = some inner → inner.entries.length ≤ maxQueueLen

theorem length_pushed_le (inner : Inner) (adif : Text) (now : UInt64) :
    (pushed inner adif now).entries.length ≤ maxQueueLen := by
  rw [pushed_entries]
  exact Fifo.length_push_le _ _

/-- **One step keeps the bound.** -/
theorem Capped.step (hJ : J.Strict) (h : Step J s a s') (hf : Fits J s a) (hc : Capped J s) :
    Capped J s' := by
  obtain ⟨⟨sh, hsh⟩, hfile, hmem⟩ := hc
  cases h with
  | @opened disk disk' io inner replay h =>
      obtain ⟨sh', ⟨hsh', -⟩, -⟩ := open_spec hJ hsh h
      have hlen := (open_entryLines hJ hsh h).length_le
      obtain ⟨rfl, -⟩ := open_stored h
      have hstored := (stored_sublist hJ hsh).length_le
      exact ⟨⟨sh', hsh'⟩, Nat.le_trans hlen hfile,
        fun _ h => Option.some.inj h ▸ Nat.le_trans hstored hfile⟩
  | @openFailed disk disk' io e h =>
      obtain ⟨sh', ⟨hsh', -⟩, -⟩ := open_spec hJ hsh h
      exact ⟨⟨sh', hsh'⟩, Nat.le_trans (open_entryLines hJ hsh h).length_le hfile,
        fun _ h => by cases h⟩
  | @appended disk disk' inner inner' adif io res h =>
      obtain ⟨rfl, -⟩ := append_memory h
      have hpushed := length_pushed_le inner adif io.now
      obtain ⟨-, hrw | ⟨rfl, -⟩⟩ | ⟨hlen, n, hn, -, hwrites | rfl⟩ :=
        append_spec hJ.toLawful hsh h
      · exact ⟨⟨_, hrw⟩, entryLines_ofEntries hJ hrw ▸ hpushed,
          fun _ h => Option.some.inj h ▸ hpushed⟩
      · exact ⟨⟨sh, hsh⟩, hfile, fun _ h => Option.some.inj h ▸ hpushed⟩
      · -- there is room for what is in memory and what was left behind
        have hroom := hf inner rfl hlen hwrites
        have hsplit := length_diff_add (disk.entryLines J) inner.entries
        have hadd : (disk'.entryLines J).length ≤ (disk.entryLines J).length + 1 := by
          simpa using (entryLines_write hJ hsh hn).length_le
        refine ⟨⟨_, hn⟩, ?_, fun _ h => Option.some.inj h ▸ hpushed⟩
        change (disk'.entryLines J).length ≤ maxQueueLen
        change _ + ((disk.entryLines J).diff inner.entries).length < _ at hroom
        omega
      · rw [FileShape.write_zero] at hn
        refine ⟨⟨sh, hn⟩, ?_, fun _ h => Option.some.inj h ▸ hpushed⟩
        exact (entryLines_shape hJ hn).trans (entryLines_shape hJ hsh).symm ▸ hfile
  | @removed disk disk' inner inner' seq io res h =>
      obtain rfl := remove_memory h
      have hle : (dropped inner seq).entries.length ≤ maxQueueLen :=
        Nat.le_trans (Fifo.delete_sublist _).length_le (hmem inner rfl)
      obtain hrw | ⟨rfl, -⟩ := remove_spec hJ.toLawful h
      · exact ⟨⟨_, hrw⟩, entryLines_ofEntries hJ hrw ▸ hle, fun _ h => Option.some.inj h ▸ hle⟩
      · exact ⟨⟨sh, hsh⟩, hfile, fun _ h => Option.some.inj h ▸ hle⟩
  | killed => exact ⟨⟨sh, hsh⟩, hfile, fun _ h => by cases h⟩

theorem Capped.fresh (hJ : J.Strict) : Capped J Sys.fresh := by
  have hsh : Sys.fresh.disk.Has (FileShape.ofEntries hJ.toLawful []) := rfl
  refine ⟨⟨_, hsh⟩, ?_, fun _ h => by cases h⟩
  rw [entryLines_ofEntries hJ hsh]
  exact Nat.zero_le _

theorem Capped.run (hJ : J.Strict) {tr : List Act} (h : Run (Step J) (Fits J) Sys.fresh tr s) :
    Capped J s := by
  refine h.invariant (I := fun _ s => Capped J s) (.fresh hJ) ?_
  intro tr s a s' _ hc hf hs
  exact hc.step hJ hs hf

/-- **The spool stays capped**: the file never holds more than `maxQueueLen` entries, and no start
replays more. -/
theorem capped_of_fits (hJ : J.Strict) {tr : List Act}
    (h : Run (Step J) (Fits J) Sys.fresh tr s) :
    (s.disk.entryLines J).length ≤ maxQueueLen ∧
      ∀ io replay, .opened io replay ∈ tr → replay.length ≤ maxQueueLen := by
  refine ⟨(Capped.run hJ h).file, fun io replay hm => ?_⟩
  obtain ⟨tr₁, tr₂, rfl⟩ := List.append_of_mem hm
  obtain ⟨m, m', h₁, -, hs, -⟩ := h.step_at
  obtain ⟨⟨sh, hsh⟩, hfile, -⟩ := Capped.run hJ h₁
  cases hs with
  | opened h =>
      obtain ⟨-, rfl⟩ := open_stored h
      rw [List.length_map]
      exact Nat.le_trans (stored_sublist hJ hsh).length_le hfile

/-! ### Runs without a failed removal -/

/-- A removal that takes something out of memory gets as far as the rename. -/
def Removes (s : Sys) : Act → Prop
  | .removed seq io _ => ∀ inner, s.proc = some inner → io = .failsBefore →
      ∀ e ∈ inner.entries, e.seq ≠ seq
  | _ => True

theorem diff_eq_nil_of_sublist : ∀ {l₁ l₂ : List Entry}, l₁.Sublist l₂ → l₁.diff l₂ = []
  | l₁, [], h => List.sublist_nil.mp h
  | l₁, a :: l₂, h => by
      rw [List.diff_cons]
      have h := h.erase a
      rw [List.erase_cons_head] at h
      exact diff_eq_nil_of_sublist h

/-- Below the bound, memory holds all that the file does. -/
structure Covered (J : SerdeJson) (s : Sys) : Prop where
  shape : ∃ sh : FileShape J, s.disk.Has sh
  covered : ∀ inner, s.proc = some inner → inner.entries.length < maxQueueLen →
    (s.disk.entryLines J).Sublist inner.entries

theorem Covered.of_some (hJ : J.Strict) {disk : Disk} {inner : Inner}
    (h : disk.Has (FileShape.ofEntries hJ.toLawful inner.entries)) :
    Covered J ⟨disk, some inner⟩ := by
  refine ⟨⟨_, h⟩, fun _ hi _ => ?_⟩
  cases hi
  exact entryLines_ofEntries hJ h ▸ List.Sublist.refl _

/-- A removal of what is pending, as far as the rename, leaves in the file what is in memory. -/
theorem remove_pending (hJ : J.Lawful) {disk disk' : Disk} {inner inner' : Inner} {seq : UInt64}
    {io : RewriteIo} {res : Except QsoQueueError Unit}
    (hpending : ¬ ∀ e ∈ inner.entries, e.seq ≠ seq) (hio : io ≠ .failsBefore)
    (h : QsoQueue.remove J inner disk seq io = (res, inner', disk')) :
    disk'.Has (FileShape.ofEntries hJ (dropped inner seq).entries) := by
  have hne : (inner.entries.filter (·.seq != seq)).length ≠ inner.entries.length := by
    rw [ne_eq, List.length_filter_eq_length_iff]
    intro hall
    exact hpending fun e he => bne_iff_ne.mp (hall e he)
  simp only [QsoQueue.remove, hne, if_false] at h
  cases io with
  | failsBefore => exact absurd rfl hio
  | ok => cases h; exact (FileShape.bytes_ofEntries _ _).symm
  | failsAfter => cases h; exact (FileShape.bytes_ofEntries _ _).symm

theorem Covered.step (hJ : J.Strict) (h : Step J s a s') (hr : Removes s a) (hc : Covered J s) :
    Covered J s' := by
  obtain ⟨⟨sh, hsh⟩, hcov⟩ := hc
  cases h with
  | @opened disk disk' io inner replay h =>
      obtain ⟨sh', ⟨hsh', -⟩, hres⟩ := open_spec hJ hsh h
      obtain ⟨-, rfl, -⟩ := hres _ _ rfl
      refine ⟨⟨sh', hsh'⟩, fun _ hi _ => ?_⟩
      cases hi
      exact entryLines_shape hJ hsh' ▸ List.Sublist.refl _
  | @openFailed disk disk' io e h =>
      obtain ⟨sh', ⟨hsh', -⟩, -⟩ := open_spec hJ hsh h
      exact ⟨⟨sh', hsh'⟩, fun _ hi => by cases hi⟩
  | @appended disk disk' inner inner' adif io res h =>
      obtain ⟨rfl, -⟩ := append_memory h
      obtain ⟨hfull, hrw | ⟨rfl, -⟩⟩ | ⟨hlen, n, hn, -⟩ := append_spec hJ.toLawful hsh h
      · exact .of_some hJ hrw
      · -- nothing is written, and memory is at the bound
        refine ⟨⟨sh, hsh⟩, fun _ hi hlt => ?_⟩
        cases hi
        rw [pushed_entries, Fifo.push, List.length_drop, List.length_append] at hlt
        have hpos := maxQueueLen_pos
        simp only [List.length_singleton] at hlt
        omega
      · refine ⟨⟨_, hn⟩, fun _ hi _ => ?_⟩
        cases hi
        rw [pushed_of_lt hlen]
        exact (entryLines_write hJ hsh hn).trans
          ((hcov inner rfl hlen).append (List.Sublist.refl _))
  | @removed disk disk' inner inner' seq io res h =>
      obtain rfl := remove_memory h
      by_cases hpending : ∀ e ∈ inner.entries, e.seq ≠ seq
      · obtain hrw | ⟨rfl, -⟩ := remove_spec hJ.toLawful h
        · exact .of_some hJ hrw
        · rw [dropped_of_not_pending hpending]
          exact ⟨⟨sh, hsh⟩, hcov⟩
      · have hio : io ≠ .failsBefore := fun he => hpending (hr inner rfl he)
        exact .of_some hJ (remove_pending hJ.toLawful hpending hio h)
  | killed => exact ⟨⟨sh, hsh⟩, fun _ hi => by cases hi⟩

theorem Covered.fits (h : Covered J s) : Fits J s a := by
  cases a with
  | appended =>
      intro inner hp hlt _
      rw [leftBehind, diff_eq_nil_of_sublist (h.covered inner hp hlt)]
      exact hlt
  | _ => trivial

/-- **A run in which no removal fails before the rename** leaves nothing behind. -/
theorem fits_of_removals (hJ : J.Strict) {tr : List Act}
    (h : Run (Step J) Removes Sys.fresh tr s) : Run (Step J) (Fits J) Sys.fresh tr s := by
  refine (h.invariant (I := fun tr s => Run (Step J) (Fits J) Sys.fresh tr s ∧ Covered J s)
    ?_ ?_).1
  · exact ⟨.nil, ⟨.empty, rfl⟩, fun _ hi => by cases hi⟩
  · rintro tr s a s' - ⟨hrun, hc⟩ hr hs
    exact ⟨hrun.extend hs hc.fits, hc.step hJ hs hr⟩

/-! ### Removals that fail -/

theorem entryLines_of_lists {disk : Disk} {es : List Entry} (hJ : J.Strict)
    (h : disk.Lists J es) : disk.entryLines J = es :=
  entryLines_ofEntries hJ (h.getD.trans (FileShape.bytes_ofEntries _ _).symm)

/-- A start, an append, a removal that fails before the rename, and one more append. -/
def unremovedActs : List Act :=
  [.opened {} [], .appended ['A'] { now := 0 } [] (.ok 1),
    .removed 1 .failsBefore (.error (.io .other)), .appended ['B'] { now := 0 } [] (.ok 2)]

/-- The entry that was not removed is left behind, and there is room for it. -/
theorem unremoved_capped :
    (Disk.entryLines json ⟨some (lineBytes json entryA ++ lineBytes json entryB), []⟩).length ≤
        maxQueueLen ∧
      ∀ io replay, .opened io replay ∈ unremovedActs → replay.length ≤ maxQueueLen := by
  have h₁ : Step json ⟨⟨none, []⟩, some ⟨[], 1⟩⟩ (.appended ['A'] { now := 0 } [] (.ok 1))
      ⟨⟨some (lineBytes json entryA), []⟩, some ⟨[entryA], 2⟩⟩ :=
    .append_of (by decide +kernel) (by decide +kernel)
  have h₂ : Step json ⟨⟨some (lineBytes json entryA), []⟩, some ⟨[entryA], 2⟩⟩
      (.removed 1 .failsBefore (.error (.io .other)))
      ⟨⟨some (lineBytes json entryA), []⟩, some ⟨[], 2⟩⟩ := .removed (by decide +kernel)
  have h₃ : Step json ⟨⟨some (lineBytes json entryA), []⟩, some ⟨[], 2⟩⟩
      (.appended ['B'] { now := 0 } [] (.ok 2))
      ⟨⟨some (lineBytes json entryA ++ lineBytes json entryB), []⟩, some ⟨[entryB], 3⟩⟩ :=
    .append_of (by decide +kernel) (by decide +kernel)
  have hfits₁ : Fits json ⟨⟨none, []⟩, some ⟨[], 1⟩⟩
      (.appended ['A'] { now := 0 } [] (.ok 1)) := by
    intro inner hp hlt _
    cases Option.some.inj hp
    exact hlt
  have hfits₃ : Fits json ⟨⟨some (lineBytes json entryA), []⟩, some ⟨[], 2⟩⟩
      (.appended ['B'] { now := 0 } [] (.ok 2)) := by
    intro inner hp _ _
    cases Option.some.inj hp
    have hlists : Disk.Lists json ⟨some (lineBytes json entryA), []⟩ [entryA] :=
      .inr (by decide +kernel)
    rw [leftBehind, entryLines_of_lists json_strict hlists]
    exact lt_maxQueueLen (by decide)
  exact capped_of_fits json_strict
    ((((Run.nil.extend opened_fresh trivial).extend h₁ hfits₁).extend h₂ trivial).extend h₃ hfits₃)

/-- A queue filled up to any number of entries. -/
theorem fill_run (n : Nat) (hn : n ≤ maxQueueLen) :
    ∃ disk es seq tr, disk.Lists json es ∧ es.length = n ∧
      Run (Step json) Always Sys.fresh tr ⟨disk, some ⟨es, seq⟩⟩ := by
  induction n with
  | zero => exact ⟨⟨none, []⟩, [], 1, _, .inl ⟨rfl, rfl⟩, rfl, Run.nil.extend opened_fresh trivial⟩
  | succ n ih =>
      obtain ⟨disk, es, seq, tr, hlists, hlen, hrun⟩ := ih (Nat.le_of_succ_le hn)
      obtain ⟨disk', happ, hlists'⟩ := append_below seq [] 0 (hlen ▸ hn) hlists
      exact ⟨disk', _, _, _, hlists', by simp [hlen], hrun.extend (.appended happ) trivial⟩

/-- **A full queue, a removal that fails before the rename, and an append**: the file then holds
one entry too many. -/
theorem cap_exceeded : ¬ ∀ (J : SerdeJson), J.Strict → ∀ tr s,
    Run (Step J) Always Sys.fresh tr s → (s.disk.entryLines J).length ≤ maxQueueLen := fun h => by
  obtain ⟨disk, es, seq, tr, hlists, hlen, hrun⟩ := fill_run maxQueueLen (Nat.le_refl _)
  cases es with
  | nil => exact absurd hlen (Nat.ne_of_lt maxQueueLen_pos)
  | cons e es =>
      -- memory loses the first entry, and the file keeps it
      have hlt : ((e :: es).filter (·.seq != e.seq)).length < (e :: es).length :=
        List.length_filter_lt_length_iff_exists.mpr ⟨e, by simp, by simp⟩
      have hrem : QsoQueue.remove json ⟨e :: es, seq⟩ disk e.seq .failsBefore =
          (.error (.io .other), dropped ⟨e :: es, seq⟩ e.seq, disk) := by
        simp only [QsoQueue.remove, Nat.ne_of_lt hlt, if_false]
        rfl
      have hroom : ¬ maxQueueLen < (dropped ⟨e :: es, seq⟩ e.seq).entries.length + 1 := by
        change ¬ _ < ((e :: es).filter (·.seq != e.seq)).length + 1
        omega
      have happ : ∃ new disk', QsoQueue.append json (dropped ⟨e :: es, seq⟩ e.seq) disk []
          { now := 0 } = (.ok seq, pushed (dropped ⟨e :: es, seq⟩ e.seq) [] 0, disk') ∧
            disk'.Lists json (e :: es ++ [new]) :=
        ⟨newEntry ⟨e :: es, seq⟩ [] 0, _, by simp only [QsoQueue.append, if_neg hroom]; rfl,
          .inr (congrArg some (hlists.snoc _))⟩
      obtain ⟨new, disk', happ, hlists'⟩ := happ
      have hle := h json json_strict _ _
        ((hrun.extend (.removed hrem) trivial).extend (.appended happ) trivial)
      rw [entryLines_of_lists json_strict hlists', List.length_append, hlen] at hle
      exact Nat.not_succ_le_self _ hle

end WavelogRelay.Queue
