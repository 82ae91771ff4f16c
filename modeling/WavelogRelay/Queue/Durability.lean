import WavelogRelay.Queue.Calls
import Mathlib.Data.List.Nodup

/-!
# Queue — acknowledged entries survive, as long as no line is written onto a torn one

`live tr` lists the entries that the appends of a run acknowledged and that no removal or eviction
has taken out since.  `Durable` says of a start that its replay holds each of them once, in order.

An append below the bound writes at the end of the file, whatever stands there.  After a write
that stopped inside a line, or before its newline, the new line goes on in the torn one, and the
next start reads neither.

* `durable_of_safe_writes`: in every run where each such append that writes anything starts on a
  line of its own, every start is durable.  The invariant is that the file stays clean, and that
  the live entries are among those in the file and those in memory (`Live`).
* `torn_append_loses_next`: an acknowledged entry is lost after a torn write.
-/

namespace WavelogRelay.Queue
open Library

/-- What an act does to the live entries. -/
def liveStep (l : List (UInt64 × Text)) : Act → List (UInt64 × Text)
  | .appended adif _ ev res =>
      let kept := l.filter fun x => x ∉ ev.map Entry.pair
      match res with
      | .ok seq => kept ++ [(seq, adif)]
      | .error _ => kept
  | .removed seq _ _ => Fifo.delete Prod.fst seq l
  | _ => l

/-- The entries acknowledged and neither removed nor evicted since. -/
def live (tr : List Act) : List (UInt64 × Text) := tr.foldl liveStep []

@[simp] theorem live_append_singleton (tr : List Act) (a : Act) :
    live (tr ++ [a]) = liveStep (live tr) a := by
  simp [live]

/-- A replay after the acts `tr`: every live entry is in it exactly once, in order. -/
def Durable (tr : List Act) (replay : Replay) : Prop :=
  (live tr).Sublist replay ∧ ∀ x ∈ live tr, replay.count x = 1

/-- The file is not there, is empty, or ends with a newline. -/
def Disk.AtLineStart (disk : Disk) : Prop :=
  ∀ bytes, disk.file = some bytes → bytes = [] ∨ bytes.getLast? = some 10

/-- An append that writes one line, or some of it, starts it on a line of its own, and the counter
is not at its end. -/
def SafeWrite (s : Sys) : Act → Prop
  | .appended _ io _ _ => ∀ inner, s.proc = some inner → inner.nextSeq < maxSeq ∧
      (inner.entries.length < maxQueueLen → io.line.Writes → s.disk.AtLineStart)
  | _ => True

variable {J : SerdeJson}

theorem SafeWrite.noWrap {s : Sys} {a : Act} (h : SafeWrite s a) : NoWrap s.proc a := by
  cases a with
  | appended => exact fun inner hp => (h inner hp).1
  | _ => trivial

theorem Disk.AtLineStart.tail {disk : Disk} {sh : FileShape J} (hJ : J.Lawful)
    (h : disk.AtLineStart) (hsh : disk.Has sh) : sh.tail = [] := by
  refine FileShape.tail_eq_nil hJ ?_
  rw [← hsh]
  cases hfile : disk.file with
  | none => exact .inl rfl
  | some bytes => exact h bytes hfile

/-- The live entries are in the file and in memory, in order. -/
structure Live (l : List (UInt64 × Text)) (sh : FileShape J) (proc : Option Inner) : Prop where
  clean : sh.Clean
  file : l.Sublist (sh.entries.map Entry.pair)
  memory : ∀ inner, proc = some inner → l.Sublist (inner.entries.map Entry.pair)

theorem map_dropped {α β : Type*} (f : α → β) (cap : Nat) (q : List α) :
    (Fifo.dropped cap q).map f = Fifo.dropped cap (q.map f) := by
  simp [Fifo.dropped]

theorem map_push {α β : Type*} (f : α → β) (cap : Nat) (q : List α) (x : α) :
    (Fifo.push cap q x).map f = Fifo.push cap (q.map f) (f x) := by
  simp [Fifo.push]

theorem map_delete (seq : UInt64) (es : List Entry) :
    (Fifo.delete (·.seq) seq es).map Entry.pair = Fifo.delete Prod.fst seq (es.map Entry.pair) := by
  simp [Fifo.delete, List.filter_map, Function.comp_def]

/-- What is live after an append is in the memory it leaves. -/
theorem liveStep_appended {l : List (UInt64 × Text)} {inner : Inner} (adif : Text)
    (io : AppendIo) {res : Except QsoQueueError UInt64}
    (h : l.Sublist (inner.entries.map Entry.pair))
    (hseq : ∀ seq, res = .ok seq → seq = inner.nextSeq) :
    (liveStep l (.appended adif io (evicted inner) res)).Sublist
      ((pushed inner adif io.now).entries.map Entry.pair) := by
  have hpush := Fifo.push_sublist maxQueueLen_pos h
    (p := fun x => x ∉ (evicted inner).map Entry.pair)
    (fun y hy => by simpa [evicted, map_dropped] using hy) (inner.nextSeq, adif)
  rw [pushed_entries, map_push]
  cases res with
  | ok seq =>
      obtain rfl := hseq seq rfl
      exact hpush
  | error _ => exact (List.sublist_append_left _ _).trans hpush

theorem liveStep_sublist {l : List (UInt64 × Text)} {adif : Text} {io : AppendIo}
    {ev : List Entry} {res : Except QsoQueueError UInt64} (hres : ∀ seq, res ≠ .ok seq) :
    (liveStep l (.appended adif io ev res)).Sublist l := by
  cases res with
  | ok seq => exact absurd rfl (hres seq)
  | error _ => exact List.filter_sublist

/-- **One act keeps the live entries**, where an append that writes a line starts one. -/
theorem Live.step {hJ : J.Lawful} {l : List (UInt64 × Text)} {sh sh' : FileShape J}
    {proc proc' : Option Inner} {a : Act} (h : ShapeStep hJ sh proc a sh' proc')
    (hw : ∀ inner adif io ev res, proc = some inner → a = .appended adif io ev res →
      inner.entries.length < maxQueueLen → io.line.Writes → sh.tail = [])
    (hl : Live l sh proc) : Live (liveStep l a) sh' proc' := by
  have settled : ∀ es, (FileShape.ofEntries hJ es).Clean := fun es =>
    (FileShape.settled_ofEntries hJ es).clean
  cases h with
  | opened hsub hclean hset =>
      obtain ⟨hc, he⟩ := hclean hl.clean
      have hfile := he ▸ hl.file
      exact ⟨hc, hfile, fun _ h => Option.some.inj h ▸ hfile⟩
  | openFailed hsub hclean =>
      obtain ⟨hc, he⟩ := hclean hl.clean
      exact ⟨hc, he ▸ hl.file, nofun⟩
  | @wrote inner adif io res n hlen hwrites hseq hn =>
      have htail := hw inner adif io _ res rfl rfl hlen hwrites
      have hmem := liveStep_appended adif io (hl.memory inner rfl) hseq
      obtain ⟨hc, he⟩ := hl.clean.write hJ (newEntry inner adif io.now) n htail
      refine ⟨hc, ?_, fun _ h => Option.some.inj h ▸ hmem⟩
      -- below the bound nothing is evicted, and the file gains what memory gains
      rw [he, List.map_append]
      have hkept : (l.filter fun x => x ∉ (evicted inner).map Entry.pair) = l := by
        simp [evicted, Fifo.dropped_of_lt hlen]
      simp only [liveStep, hkept]
      cases res with
      | ok seq =>
          rw [if_pos (Nat.le_of_lt (hn seq rfl)), hseq seq rfl]
          exact hl.file.append (List.Sublist.refl _)
      | error _ => exact hl.file.trans (List.sublist_append_left _ _)
  | @rewrote inner adif io res hseq =>
      have hmem := liveStep_appended adif io (hl.memory inner rfl) hseq
      exact ⟨settled _, by rw [FileShape.entries_ofEntries]; exact hmem,
        fun _ h => Option.some.inj h ▸ hmem⟩
  | @unwritten inner adif io res hres =>
      have hmem := liveStep_appended adif io (hl.memory inner rfl)
        fun seq he => absurd he (hres seq)
      exact ⟨hl.clean, (liveStep_sublist hres).trans hl.file,
        fun _ h => Option.some.inj h ▸ hmem⟩
  | @removed inner seq =>
      have hmem : (Fifo.delete Prod.fst seq l).Sublist
          ((dropped inner seq).entries.map Entry.pair) := by
        rw [dropped, map_delete]
        exact (hl.memory inner rfl).filter _
      exact ⟨settled _, by rw [FileShape.entries_ofEntries]; exact hmem,
        fun _ h => Option.some.inj h ▸ hmem⟩
  | @unremoved inner seq =>
      refine ⟨hl.clean, (Fifo.delete_sublist _).trans hl.file,
        fun _ h => Option.some.inj h ▸ ?_⟩
      rw [dropped, map_delete]
      exact (hl.memory inner rfl).filter _
  | killed => exact ⟨hl.clean, hl.file, nofun⟩

theorem Live.empty : Live (live []) (.empty : FileShape J) none :=
  ⟨FileShape.settled_empty.clean, List.Sublist.refl _, nofun⟩

/-- What every run of safe writes keeps. -/
theorem Live.run (hJ : J.Strict) {tr : List Act} {s : Sys}
    (h : Run (Step J) SafeWrite Sys.fresh tr s) :
    ∃ sh : FileShape J, s.disk.Has sh ∧ Ordered sh s.proc ∧ Live (live tr) sh s.proc := by
  refine h.invariant (I := fun tr s => ∃ sh : FileShape J, s.disk.Has sh ∧ Ordered sh s.proc ∧
    Live (live tr) sh s.proc) ⟨.empty, rfl, .empty, .empty⟩ ?_
  rintro tr s a s' - ⟨sh, hsh, ho, hl⟩ hw hstep
  obtain ⟨sh', hsh', hs⟩ := step_shape hJ hstep hsh
  refine ⟨sh', hsh', ho.step hs hw.noWrap, live_append_singleton tr a ▸ hl.step hs ?_⟩
  rintro inner adif io ev res hp rfl hlen hwrites
  exact ((hw inner hp).2 hlen hwrites).tail hJ.toLawful hsh

/-- **Every start of a run of safe writes is durable.** -/
theorem durable_of_safe_writes (hJ : J.Strict) {tr : List Act} {s : Sys}
    (h : Run (Step J) SafeWrite Sys.fresh tr s) {tr₁ tr₂ : List Act} {io : OpenIo}
    {replay : Replay} (htr : tr = tr₁ ++ .opened io replay :: tr₂) : Durable tr₁ replay := by
  subst htr
  obtain ⟨m, m', h₁, -, hstep, -⟩ := h.step_at
  obtain ⟨sh, hsh, ho, hl⟩ := Live.run hJ h₁
  obtain ⟨sh', -, hs⟩ := step_shape hJ hstep hsh
  generalize m.proc = proc at hs ho hl
  generalize m'.proc = proc' at hs
  cases hs with
  | opened hsub hclean hset =>
      have hfile := (hclean hl.clean).2 ▸ hl.file
      refine ⟨hfile, fun x hx => ?_⟩
      have hnodup : (sh'.entries.map Entry.pair).Nodup := by
        have hp := List.Pairwise.sublist hsub ho.file
        rw [hset.seqs, List.pairwise_map] at hp
        refine List.Pairwise.map _ (fun a b hlt heq => ?_) hp
        have : a.seq = b.seq := (Prod.mk.inj heq).1
        exact UInt64.lt_irrefl _ (this ▸ hlt)
      exact List.count_eq_one_of_mem hnodup (hfile.subset hx)

/-! ### Two runs -/

def entryA : Entry := { seq := 1, adif := ['A'], receivedAt := 0 }

def entryB : Entry := { seq := 2, adif := ['B'], receivedAt := 0 }

/-- An append, a kill and a restart: the entry is replayed. -/
theorem restart_durable :
    Durable [.opened {} [], .appended ['A'] { now := 0 } [] (.ok 1), .killed] [(1, ['A'])] := by
  have h₁ : Step json ⟨⟨none, []⟩, some ⟨[], 1⟩⟩ (.appended ['A'] { now := 0 } [] (.ok 1))
      ⟨⟨some (lineBytes json entryA), []⟩, some ⟨[entryA], 2⟩⟩ :=
    .append_of (by decide +kernel) (by decide +kernel)
  have h₂ : Step json ⟨⟨some (lineBytes json entryA), []⟩, none⟩ (.opened {} [(1, ['A'])])
      ⟨⟨some (lineBytes json entryA), []⟩, some ⟨[entryA], 2⟩⟩ := .opened (by decide +kernel)
  have hsafe : SafeWrite ⟨⟨none, []⟩, some ⟨[], 1⟩⟩
      (.appended ['A'] { now := 0 } [] (.ok 1)) := by
    intro inner hp
    cases Option.some.inj hp
    exact ⟨by decide, fun _ _ _ h => nomatch h⟩
  have hrun : Run (Step json) SafeWrite Sys.fresh _ _ :=
    (((Run.nil.extend opened_fresh trivial).extend h₁ hsafe).extend .killed trivial).extend h₂
      trivial
  exact durable_of_safe_writes json_strict hrun rfl

/-- **A torn write costs the next acknowledged entry.**  The first append stops after five bytes
and fails; the second goes on in the same line and succeeds; the next start can read neither. -/
theorem torn_append_loses_next :
    ¬ ∀ (J : SerdeJson), J.Strict → ∀ tr s, Run (Step J) Always Sys.fresh tr s →
      ∀ tr₁ io replay tr₂, tr = tr₁ ++ .opened io replay :: tr₂ → Durable tr₁ replay := fun h => by
  have h₁ : Step json ⟨⟨none, []⟩, some ⟨[], 1⟩⟩
      (.appended ['A'] { now := 0, line := .writeFails 5 } [] (.error (.io .other)))
      ⟨⟨some ((lineBytes json entryA).take 5), []⟩, some ⟨[entryA], 2⟩⟩ :=
    .append_of (by decide +kernel) (by decide +kernel)
  have h₂ : Step json ⟨⟨some ((lineBytes json entryA).take 5), []⟩, some ⟨[entryA], 2⟩⟩
      (.appended ['B'] { now := 0 } [] (.ok 2))
      ⟨⟨some ((lineBytes json entryA).take 5 ++ lineBytes json entryB), []⟩,
        some ⟨[entryA, entryB], 3⟩⟩ :=
    .append_of (by decide +kernel) (by decide +kernel)
  have h₃ : Step json ⟨⟨some ((lineBytes json entryA).take 5 ++ lineBytes json entryB), []⟩, none⟩
      (.opened {} []) ⟨⟨some [], []⟩, some ⟨[], 1⟩⟩ := .opened (by decide +kernel)
  have hrun : Run (Step json) Always Sys.fresh _ _ :=
    ((((Run.nil.extend opened_fresh trivial).extend h₁ trivial).extend h₂ trivial).extend .killed
      trivial).extend h₃ trivial
  have hdur := h json json_strict _ _ hrun _ {} [] [] rfl
  -- the second entry is live, and not replayed
  exact absurd (hdur.1.subset (a := (2, ['B'])) (by decide)) (by simp)

end WavelogRelay.Queue
