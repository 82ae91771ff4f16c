import WavelogRelay.Library.Fifo
import WavelogRelay.Library.Runs
import WavelogRelay.Queue.Recovery

/-!
# Queue — runs of calls

`Step` is one call on a queue file, or the end of the process: opened, appended to, removed from,
killed, over any number of processes one after another.  What the calls do to the file system is
part of the act, so every run over every fault is a run here.

Over it stands `ShapeStep`, which says what each act does to the entries in the file and to those
in memory (`step_shape`), and no more.

* `Counted.run`: in any run of fewer than `2^64 - 1` appends, the seqs in the file increase, those
  in memory increase, and the next seq is above both.
* `nextSeq_lt_maxSeq`: the counter does not wrap in one.
-/

namespace WavelogRelay.Queue
open Library

/-- The file, and the queue of the running process, if one runs. -/
structure Sys where
  disk : Disk
  proc : Option Inner

/-- No file, no process. -/
def Sys.fresh : Sys := ⟨⟨none, []⟩, none⟩

/-- A call with its faults and its result, and for an append the entries it evicts. -/
inductive Act where
  | opened (io : OpenIo) (replay : Replay)
  | openFailed (io : OpenIo) (e : QsoQueueError)
  | appended (adif : Text) (io : AppendIo) (evicted : List Entry)
      (res : Except QsoQueueError UInt64)
  | removed (seq : UInt64) (io : RewriteIo) (res : Except QsoQueueError Unit)
  | killed

/-- What an append drops from the front. -/
def evicted (inner : Inner) : List Entry := Fifo.dropped maxQueueLen inner.entries

inductive Step (J : SerdeJson) : Sys → Act → Sys → Prop where
  | opened {disk disk' : Disk} {io : OpenIo} {inner : Inner} {replay : Replay}
      (h : QsoQueue.open J disk io = (.ok (inner, replay), disk')) :
      Step J ⟨disk, none⟩ (.opened io replay) ⟨disk', some inner⟩
  | openFailed {disk disk' : Disk} {io : OpenIo} {e : QsoQueueError}
      (h : QsoQueue.open J disk io = (.error e, disk')) :
      Step J ⟨disk, none⟩ (.openFailed io e) ⟨disk', none⟩
  | appended {disk disk' : Disk} {inner inner' : Inner} {adif : Text} {io : AppendIo}
      {res : Except QsoQueueError UInt64}
      (h : QsoQueue.append J inner disk adif io = (res, inner', disk')) :
      Step J ⟨disk, some inner⟩ (.appended adif io (evicted inner) res) ⟨disk', some inner'⟩
  | removed {disk disk' : Disk} {inner inner' : Inner} {seq : UInt64} {io : RewriteIo}
      {res : Except QsoQueueError Unit}
      (h : QsoQueue.remove J inner disk seq io = (res, inner', disk')) :
      Step J ⟨disk, some inner⟩ (.removed seq io res) ⟨disk', some inner'⟩
  | killed {disk : Disk} {inner : Inner} : Step J ⟨disk, some inner⟩ .killed ⟨disk, none⟩

theorem Step.append_of {J : SerdeJson} {disk disk' : Disk} {inner inner' : Inner} {adif : Text}
    {io : AppendIo} {ev : List Entry} {res : Except QsoQueueError UInt64}
    (h : QsoQueue.append J inner disk adif io = (res, inner', disk')) (hev : evicted inner = ev) :
    Step J ⟨disk, some inner⟩ (.appended adif io ev res) ⟨disk', some inner'⟩ := hev ▸ .appended h

/-- A first start. -/
theorem opened_fresh : Step json Sys.fresh (.opened {} []) ⟨⟨none, []⟩, some ⟨[], 1⟩⟩ := .opened rfl

/-! ### The memory -/

/-- The entry an append makes. -/
def newEntry (inner : Inner) (adif : Text) (now : UInt64) : Entry :=
  { seq := inner.nextSeq, adif, receivedAt := now }

@[simp] theorem pushed_entries (inner : Inner) (adif : Text) (now : UInt64) :
    (pushed inner adif now).entries =
      Fifo.push maxQueueLen inner.entries (newEntry inner adif now) := by
  simp [pushed, Fifo.push, newEntry]

/-- Below the bound nothing is evicted. -/
theorem pushed_of_lt {inner : Inner} (h : inner.entries.length < maxQueueLen) (adif : Text)
    (now : UInt64) : pushed inner adif now =
      { entries := inner.entries ++ [newEntry inner adif now], nextSeq := inner.nextSeq + 1 } := by
  simp [pushed, newEntry, Nat.sub_eq_zero_of_le (Nat.succ_le_of_lt h)]

@[simp] theorem pushed_nextSeq (inner : Inner) (adif : Text) (now : UInt64) :
    (pushed inner adif now).nextSeq = inner.nextSeq + 1 := rfl

/-- The memory `remove` leaves, on whatever result. -/
def dropped (inner : Inner) (seq : UInt64) : Inner :=
  { inner with entries := Fifo.delete (·.seq) seq inner.entries }

/-! ### What a call does -/

section Specs

variable {J : SerdeJson} {disk disk' : Disk} {sh : FileShape J} {inner inner' : Inner}

theorem eq_of_map_eq_ok {ε α β : Type} {x y : β} {r : Except ε α}
    (h : r.map (fun _ => x) = .ok y) : y = x := by
  cases r <;> cases h
  rfl

/-- What an append does to the memory, and the seq it gives out. -/
theorem append_memory {adif : Text} {io : AppendIo} {res : Except QsoQueueError UInt64}
    (h : QsoQueue.append J inner disk adif io = (res, inner', disk')) :
    inner' = pushed inner adif io.now ∧ ∀ seq, res = .ok seq → seq = inner.nextSeq := by
  simp only [QsoQueue.append, Prod.mk.injEq] at h
  obtain ⟨hres, rfl, -⟩ := h
  exact ⟨rfl, fun seq he => eq_of_map_eq_ok (hres.trans he)⟩

theorem remove_memory {seq : UInt64} {io : RewriteIo} {res : Except QsoQueueError Unit}
    (h : QsoQueue.remove J inner disk seq io = (res, inner', disk')) :
    inner' = dropped inner seq := by
  simp only [QsoQueue.remove] at h
  split at h <;> cases h <;> rfl

/-- **An append**: at the bound the file is rewritten, or nothing is; below it, some of the line
is written. -/
theorem append_spec (hJ : J.Lawful) {adif : Text} {io : AppendIo}
    {res : Except QsoQueueError UInt64} (hsh : disk.Has sh)
    (h : QsoQueue.append J inner disk adif io = (res, inner', disk')) :
    maxQueueLen ≤ inner.entries.length ∧
        (disk'.Has (FileShape.ofEntries hJ (pushed inner adif io.now).entries) ∨
          disk' = disk ∧ ∀ seq, res ≠ .ok seq) ∨
      inner.entries.length < maxQueueLen ∧
        ∃ n, disk'.Has (sh.write hJ (newEntry inner adif io.now) n) ∧
          (∀ seq, res = .ok seq → byteLen (J.toString (newEntry inner adif io.now)) < n) ∧
          (io.line.Writes ∨ n = 0) := by
  simp only [QsoQueue.append] at h
  by_cases hlen : maxQueueLen < inner.entries.length + 1
  · rw [if_pos hlen] at h
    cases hrw : rewriteTo J disk (pushed inner adif io.now).entries io.rewrite with
    | mk res₁ disk₁ =>
        simp only [hrw, Prod.mk.injEq] at h
        obtain ⟨rfl, -, rfl⟩ := h
        refine .inl ⟨by omega, (rewriteTo_spec hJ hrw).2.imp_right fun hd => ⟨hd.1, ?_⟩⟩
        cases res₁ with
        | error _ => exact nofun
        | ok _ => exact absurd rfl hd.2
  · rw [if_neg hlen] at h
    cases hap : appendLine J disk (newEntry inner adif io.now) io.line with
    | mk res₁ disk₁ =>
        simp only [newEntry] at hap
        simp only [hap, Prod.mk.injEq] at h
        obtain ⟨rfl, -, rfl⟩ := h
        obtain ⟨-, n, hn, hok, hwrites⟩ := appendLine_spec hJ hsh hap
        refine .inr ⟨by omega, n, hn, fun seq he => hok ?_, hwrites⟩
        cases res₁ <;> cases he
        rfl

theorem dropped_of_not_pending {seq : UInt64} (h : ∀ e ∈ inner.entries, e.seq ≠ seq) :
    dropped inner seq = inner := by
  have hkeep : inner.entries.filter (fun e => e.seq != seq) = inner.entries :=
    List.filter_eq_self.mpr fun e he => bne_iff_ne.mpr (h e he)
  simp only [dropped, Fifo.delete, hkeep]

/-- **A removal**: the file is rewritten, or nothing is, as there is nothing to remove or as the
rewrite fails. -/
theorem remove_spec (hJ : J.Lawful) {seq : UInt64} {io : RewriteIo}
    {res : Except QsoQueueError Unit} (h : QsoQueue.remove J inner disk seq io =
      (res, inner', disk')) :
    disk'.Has (FileShape.ofEntries hJ (dropped inner seq).entries) ∨
      disk' = disk ∧ ((∀ e ∈ inner.entries, e.seq ≠ seq) ∨ ∃ err, res = .error err) := by
  simp only [QsoQueue.remove] at h
  split at h
  · rename_i hlen
    cases h
    rw [List.length_filter_eq_length_iff] at hlen
    exact .inr ⟨rfl, .inl fun e he => bne_iff_ne.mp (hlen e he)⟩
  · cases hrw : rewriteTo J disk (inner.entries.filter (·.seq != seq)) io with
    | mk res₁ disk₁ =>
        simp only [hrw] at h
        cases h
        refine (rewriteTo_spec hJ hrw).2.imp_right fun ⟨hd, hres⟩ => ⟨hd, .inr ?_⟩
        cases res with
        | ok _ => exact absurd rfl hres
        | error err => exact ⟨err, rfl⟩

end Specs

/-! ### What an act does to the entries -/

/-- A file's shape and the queue in memory, before and after an act. -/
inductive ShapeStep {J : SerdeJson} (hJ : J.Lawful) :
    FileShape J → Option Inner → Act → FileShape J → Option Inner → Prop where
  | opened {sh sh' : FileShape J} {io : OpenIo} (hsub : sh'.seqs.Sublist sh.seqs)
      (hclean : sh.Clean → sh'.Clean ∧ sh'.entries = sh.entries) (hset : sh'.Settled) :
      ShapeStep hJ sh none (.opened io (sh'.entries.map Entry.pair)) sh'
        (some { entries := sh'.entries, nextSeq := nextSeqOf sh'.entries })
  | openFailed {sh sh' : FileShape J} {io : OpenIo} {e : QsoQueueError}
      (hsub : sh'.seqs.Sublist sh.seqs)
      (hclean : sh.Clean → sh'.Clean ∧ sh'.entries = sh.entries) :
      ShapeStep hJ sh none (.openFailed io e) sh' none
  | wrote {sh : FileShape J} {inner : Inner} {adif : Text} {io : AppendIo}
      {res : Except QsoQueueError UInt64} (n : Nat) (hlen : inner.entries.length < maxQueueLen)
      (hwrites : io.line.Writes)
      (hseq : ∀ seq, res = .ok seq → seq = inner.nextSeq)
      (hn : ∀ seq, res = .ok seq → byteLen (J.toString (newEntry inner adif io.now)) < n) :
      ShapeStep hJ sh (some inner) (.appended adif io (evicted inner) res)
        (sh.write hJ (newEntry inner adif io.now) n) (some (pushed inner adif io.now))
  | rewrote {sh : FileShape J} {inner : Inner} {adif : Text} {io : AppendIo}
      {res : Except QsoQueueError UInt64} (hseq : ∀ seq, res = .ok seq → seq = inner.nextSeq) :
      ShapeStep hJ sh (some inner) (.appended adif io (evicted inner) res)
        (.ofEntries hJ (pushed inner adif io.now).entries) (some (pushed inner adif io.now))
  | unwritten {sh : FileShape J} {inner : Inner} {adif : Text} {io : AppendIo}
      {res : Except QsoQueueError UInt64} (hres : ∀ seq, res ≠ .ok seq) :
      ShapeStep hJ sh (some inner) (.appended adif io (evicted inner) res) sh
        (some (pushed inner adif io.now))
  | removed {sh : FileShape J} {inner : Inner} {seq : UInt64} {io : RewriteIo}
      {res : Except QsoQueueError Unit} :
      ShapeStep hJ sh (some inner) (.removed seq io res) (.ofEntries hJ (dropped inner seq).entries)
        (some (dropped inner seq))
  | unremoved {sh : FileShape J} {inner : Inner} {seq : UInt64} {io : RewriteIo}
      {res : Except QsoQueueError Unit} :
      ShapeStep hJ sh (some inner) (.removed seq io res) sh (some (dropped inner seq))
  | killed {sh : FileShape J} {inner : Inner} : ShapeStep hJ sh (some inner) .killed sh none

variable {J : SerdeJson}

/-- **Every call keeps to a shape**, and does to it what `ShapeStep` says. -/
theorem step_shape (hJ : J.Strict) {s s' : Sys} {a : Act} {sh : FileShape J} (h : Step J s a s')
    (hsh : s.disk.Has sh) :
    ∃ sh' : FileShape J, s'.disk.Has sh' ∧ ShapeStep hJ.toLawful sh s.proc a sh' s'.proc := by
  cases h with
  | opened h =>
      obtain ⟨sh', ⟨hsh', hsub, -, hclean⟩, hres⟩ := open_spec hJ hsh h
      obtain ⟨hset, rfl, rfl⟩ := hres _ _ rfl
      exact ⟨sh', hsh', .opened hsub (fun hc => ⟨(hclean hc).1, (hclean hc).2.1⟩) hset⟩
  | openFailed h =>
      obtain ⟨sh', ⟨hsh', hsub, -, hclean⟩, -⟩ := open_spec hJ hsh h
      exact ⟨sh', hsh', .openFailed hsub fun hc => ⟨(hclean hc).1, (hclean hc).2.1⟩⟩
  | appended h =>
      obtain ⟨rfl, hseq⟩ := append_memory h
      obtain ⟨-, hrw | ⟨rfl, hres⟩⟩ | ⟨hlen, n, hn, hok, hwrites | rfl⟩ :=
        append_spec hJ.toLawful hsh h
      · exact ⟨_, hrw, .rewrote hseq⟩
      · exact ⟨sh, hsh, .unwritten hres⟩
      · exact ⟨_, hn, .wrote n hlen hwrites hseq hok⟩
      · exact ⟨sh, FileShape.write_zero _ sh _ ▸ hn, .unwritten fun seq he => by cases hok seq he⟩
  | removed h =>
      obtain rfl := remove_memory h
      obtain hrw | ⟨rfl, -⟩ := remove_spec hJ.toLawful h
      · exact ⟨_, hrw, .removed⟩
      · exact ⟨sh, hsh, .unremoved⟩
  | killed => exact ⟨sh, hsh, .killed⟩

/-! ### The seqs -/

instance lawfulOrderMaxUInt64 : Std.LawfulOrderMax UInt64 := by
  refine .of_max_le_iff (fun a b c => ?_) (fun a b => ?_)
  · change (if a ≤ b then b else a) ≤ c ↔ a ≤ c ∧ b ≤ c
    simp only [UInt64.le_iff_toNat_le]
    split <;> omega
  · change (if a ≤ b then b else a) = a ∨ (if a ≤ b then b else a) = b
    split
    · exact .inr rfl
    · exact .inl rfl

/-- `u64::MAX`. -/
def maxSeq : UInt64 := .ofNat (UInt64.size - 1)

theorem toNat_maxSeq : maxSeq.toNat = UInt64.size - 1 := by decide

theorem lt_maxSeq {x : UInt64} (h : x.toNat < UInt64.size - 1) : x < maxSeq := by
  rwa [UInt64.lt_iff_toNat_lt, toNat_maxSeq]

theorem lt_maxSeq_of_ne {x : UInt64} (h : x ≠ maxSeq) : x < maxSeq := by
  have hne : x.toNat ≠ maxSeq.toNat := fun e => h (UInt64.toNat_inj.mp e)
  have hlt := x.toNat_lt_size
  rw [toNat_maxSeq] at hne
  exact lt_maxSeq (by omega)

theorem toNat_add_one {x : UInt64} (h : x < maxSeq) : (x + 1).toNat = x.toNat + 1 := by
  have := UInt64.lt_iff_toNat_lt.mp h
  rw [toNat_maxSeq] at this
  rw [UInt64.toNat_add]
  exact Nat.mod_eq_of_lt (show x.toNat + 1 < UInt64.size by omega)

theorem lt_add_one {x y : UInt64} (hxy : x ≤ y) (h : y < maxSeq) : x < y + 1 := by
  have := UInt64.le_iff_toNat_le.mp hxy
  rw [UInt64.lt_iff_toNat_lt, toNat_add_one h]
  omega

theorem lt_maxSeq_of_lt {x y : UInt64} (h : x < y) : x < maxSeq := by
  have hy := y.toNat_lt_size
  have := UInt64.lt_iff_toNat_lt.mp h
  exact lt_maxSeq (by omega)

/-- **The next seq is above every seq of the file**, unless the largest is `u64::MAX`. -/
theorem lt_nextSeqOf {es : List Entry} (h : ∀ e ∈ es, e.seq < maxSeq) :
    ∀ e ∈ es, e.seq < nextSeqOf es := by
  intro e he
  unfold nextSeqOf
  cases hm : (es.map (·.seq)).max? with
  | none =>
      rw [List.max?_eq_none_iff, List.map_eq_nil_iff] at hm
      simp [hm] at he
  | some m =>
      obtain ⟨hmem, hle⟩ := List.max?_eq_some_iff.mp hm
      obtain ⟨e', he', rfl⟩ := List.mem_map.mp hmem
      exact lt_add_one (hle _ (List.mem_map_of_mem he)) (h e' he')

/-- The number after the largest seq is at most one more than any bound on the seqs. -/
theorem nextSeqOf_le {es : List Entry} {n : Nat} (h : ∀ e ∈ es, e.seq.toNat ≤ n) :
    (nextSeqOf es).toNat ≤ n + 1 := by
  unfold nextSeqOf
  cases hm : (es.map (·.seq)).max? with
  | none => exact Nat.le_add_left 1 n
  | some m =>
      obtain ⟨e, he, rfl⟩ := List.mem_map.mp (List.max?_mem hm)
      have := h e he
      rw [UInt64.toNat_add]
      exact Nat.le_trans (Nat.mod_le _ _) (Nat.succ_le_succ this)

/-- The seqs in the file increase, those in memory increase, and the next one is above them. -/
structure Ordered (sh : FileShape J) (proc : Option Inner) : Prop where
  file : sh.seqs.Pairwise (· < ·)
  file_lt : ∀ x ∈ sh.seqs, x < maxSeq
  memory : ∀ inner, proc = some inner → Fifo.Sorted (·.seq) inner.entries
  memory_lt : ∀ inner, proc = some inner → ∀ e ∈ inner.entries, e.seq < inner.nextSeq
  next : ∀ inner, proc = some inner → ∀ x ∈ sh.seqs, x < inner.nextSeq

/-- An append does not wrap the counter. -/
def NoWrap (proc : Option Inner) : Act → Prop
  | .appended .. => ∀ inner, proc = some inner → inner.nextSeq < maxSeq
  | _ => True

namespace Ordered

variable {sh sh' : FileShape J} {proc proc' : Option Inner} {inner : Inner} {a : Act}

theorem of_some (file : sh.seqs.Pairwise (· < ·)) (memory : Fifo.Sorted (·.seq) inner.entries)
    (memory_lt : ∀ e ∈ inner.entries, e.seq < inner.nextSeq)
    (next : ∀ x ∈ sh.seqs, x < inner.nextSeq) : Ordered sh (some inner) where
  file := file
  file_lt x hx := lt_maxSeq_of_lt (next x hx)
  memory _ h := Option.some.inj h ▸ memory
  memory_lt _ h := Option.some.inj h ▸ memory_lt
  next _ h := Option.some.inj h ▸ next

/-- The memory an append leaves is in order. -/
theorem pushed (ho : Ordered sh (some inner)) (hw : inner.nextSeq < maxSeq) (adif : Text)
    (now : UInt64) : Fifo.Sorted (·.seq) (pushed inner adif now).entries ∧
      ∀ e ∈ (Queue.pushed inner adif now).entries, e.seq < inner.nextSeq + 1 := by
  rw [pushed_entries]
  refine ⟨(ho.memory inner rfl).push _ (ho.memory_lt inner rfl), fun e he => ?_⟩
  rcases List.mem_append.mp ((Fifo.push_sublist_append _ _ _).subset he) with he | he
  · have := ho.memory_lt inner rfl e he
    exact lt_add_one (UInt64.le_of_lt this) hw
  · rw [List.mem_singleton.mp he]
    exact lt_add_one (UInt64.le_refl _) hw

/-- A file rewritten from a memory in order is in order. -/
theorem of_memory (hJ : J.Lawful) (hs : Fifo.Sorted (·.seq) inner.entries)
    (hlt : ∀ e ∈ inner.entries, e.seq < inner.nextSeq) :
    Ordered (.ofEntries hJ inner.entries) (some inner) := by
  refine of_some (by simpa [Fifo.Sorted, List.pairwise_map] using hs) hs hlt fun x hx => ?_
  rw [FileShape.seqs_ofEntries] at hx
  obtain ⟨e, he, rfl⟩ := List.mem_map.mp hx
  exact hlt e he

/-- **One act keeps the order.** -/
theorem step {hJ : J.Lawful} (h : ShapeStep hJ sh proc a sh' proc') (hw : NoWrap proc a)
    (ho : Ordered sh proc) : Ordered sh' proc' := by
  cases h with
  | opened hsub hclean hset =>
      have hlt : ∀ x ∈ sh'.seqs, x < maxSeq := fun x hx => ho.file_lt x (hsub.subset hx)
      have hnext : ∀ e ∈ sh'.entries, e.seq < nextSeqOf sh'.entries :=
        lt_nextSeqOf fun e he => hlt _ (by rw [hset.seqs]; exact List.mem_map_of_mem he)
      have hfile := List.Pairwise.sublist hsub ho.file
      refine of_some hfile ?_ hnext fun x hx => ?_
      · rw [hset.seqs, List.pairwise_map] at hfile
        exact hfile
      · rw [hset.seqs] at hx
        obtain ⟨e, he, rfl⟩ := List.mem_map.mp hx
        exact hnext e he
  | openFailed hsub hclean =>
      exact ⟨List.Pairwise.sublist hsub ho.file, fun x hx => ho.file_lt x (hsub.subset hx),
        nofun, nofun, nofun⟩
  | @wrote inner adif io _ n hlen hwrites hseq hn =>
      have hlast := hw inner rfl
      obtain ⟨hs, hlt⟩ := ho.pushed hlast adif io.now
      have hmem : ∀ x ∈ (sh.write hJ (newEntry inner adif io.now) n).seqs,
          x ∈ sh.seqs ∨ x = inner.nextSeq := fun x hx => by
        rw [FileShape.seqs_write, List.mem_append] at hx
        rcases hx with hx | hx
        · exact .inl hx
        · split at hx
          · cases hx
          · exact .inr (List.mem_singleton.mp hx)
      refine of_some ?_ hs hlt fun x hx => ?_
      · rw [FileShape.seqs_write, List.pairwise_append]
        refine ⟨ho.file, by split <;> simp, fun x hx y hy => ?_⟩
        split at hy
        · cases hy
        · rw [List.mem_singleton.mp hy]
          exact ho.next inner rfl x hx
      · rcases hmem x hx with hx | rfl
        · exact lt_add_one (UInt64.le_of_lt (ho.next inner rfl x hx)) hlast
        · exact lt_add_one (UInt64.le_refl _) hlast
  | @rewrote inner adif io _ hseq =>
      obtain ⟨hs, hlt⟩ := ho.pushed (hw inner rfl) adif io.now
      exact of_memory hJ hs hlt
  | @unwritten inner adif io _ hres =>
      obtain ⟨hs, hlt⟩ := ho.pushed (hw inner rfl) adif io.now
      exact of_some ho.file hs hlt fun x hx =>
        lt_add_one (UInt64.le_of_lt (ho.next inner rfl x hx)) (hw inner rfl)
  | @removed inner seq =>
      exact of_memory hJ ((ho.memory inner rfl).delete seq) fun e he =>
        ho.memory_lt inner rfl e ((Fifo.delete_sublist _).subset he)
  | @unremoved inner seq =>
      exact of_some ho.file ((ho.memory inner rfl).delete seq)
        (fun e he => ho.memory_lt inner rfl e ((Fifo.delete_sublist _).subset he))
        (ho.next inner rfl)
  | killed => exact ⟨ho.file, ho.file_lt, nofun, nofun, nofun⟩

theorem empty : Ordered (.empty : FileShape J) none :=
  ⟨List.Pairwise.nil, nofun, nofun, nofun, nofun⟩

end Ordered

/-! ### How far the counter gets -/

def Act.isAppend : Act → Bool
  | .appended .. => true
  | _ => false

/-- The number of appends in a run, failed ones included. -/
def appends (tr : List Act) : Nat := tr.countP Act.isAppend

@[simp] theorem appends_append_singleton (tr : List Act) (a : Act) :
    appends (tr ++ [a]) = appends tr + if a.isAppend then 1 else 0 := by
  simp [appends, List.countP_append, List.countP_singleton]

/-- No seq given out is above `n`, and the next one is at most one above. -/
structure Counted (n : Nat) (sh : FileShape J) (proc : Option Inner) : Prop where
  file : ∀ x ∈ sh.seqs, x.toNat ≤ n
  memory : ∀ inner, proc = some inner →
    inner.nextSeq.toNat ≤ n + 1 ∧ ∀ e ∈ inner.entries, e.seq.toNat ≤ n

/-- What an append puts in memory. -/
theorem Counted.push {n : Nat} {sh : FileShape J} {inner : Inner} (hc : Counted n sh (some inner))
    (adif : Text) (now : UInt64) (hlast : inner.nextSeq < maxSeq) :
    (pushed inner adif now).nextSeq.toNat ≤ n + 1 + 1 ∧
      ∀ e ∈ (pushed inner adif now).entries, e.seq.toNat ≤ n + 1 := by
  obtain ⟨hnext, hmem⟩ := hc.memory inner rfl
  refine ⟨by rw [pushed_nextSeq, toNat_add_one hlast]; omega, fun e he => ?_⟩
  rw [pushed_entries] at he
  rcases List.mem_append.mp ((Fifo.push_sublist_append _ _ _).subset he) with he | he
  · exact Nat.le_succ_of_le (hmem e he)
  · rw [List.mem_singleton.mp he]
    exact hnext

/-- What a rewrite puts in the file. -/
theorem seqs_ofEntries_le {hJ : J.Lawful} {n : Nat} {es : List Entry}
    (hes : ∀ e ∈ es, e.seq.toNat ≤ n) : ∀ x ∈ (FileShape.ofEntries hJ es).seqs, x.toNat ≤ n := by
  intro x hx
  rw [FileShape.seqs_ofEntries] at hx
  obtain ⟨e, he, rfl⟩ := List.mem_map.mp hx
  exact hes e he

theorem Counted.step {hJ : J.Lawful} {n : Nat} {sh sh' : FileShape J} {proc proc' : Option Inner}
    {a : Act} (h : ShapeStep hJ sh proc a sh' proc') (hw : NoWrap proc a)
    (hc : Counted n sh proc) : Counted (n + if a.isAppend then 1 else 0) sh' proc' := by
  cases h with
  | opened hsub hclean hset =>
      have hle : ∀ x ∈ sh'.seqs, x.toNat ≤ n := fun x hx => hc.file x (hsub.subset hx)
      have hmem : ∀ e ∈ sh'.entries, e.seq.toNat ≤ n := fun e he =>
        hle _ (by rw [hset.seqs]; exact List.mem_map_of_mem he)
      exact ⟨hle, fun _ h => Option.some.inj h ▸ ⟨nextSeqOf_le hmem, hmem⟩⟩
  | openFailed hsub hclean => exact ⟨fun x hx => hc.file x (hsub.subset hx), nofun⟩
  | @wrote inner adif io _ k hlen hwrites hseq hn =>
      refine ⟨fun x hx => ?_,
        fun _ h => Option.some.inj h ▸ hc.push adif io.now (hw inner rfl)⟩
      rw [FileShape.seqs_write, List.mem_append] at hx
      rcases hx with hx | hx
      · exact Nat.le_succ_of_le (hc.file x hx)
      · split at hx
        · cases hx
        · rw [List.mem_singleton.mp hx]
          exact (hc.memory inner rfl).1
  | @rewrote inner adif io _ hseq =>
      have hp := hc.push adif io.now (hw inner rfl)
      exact ⟨seqs_ofEntries_le hp.2, fun _ h => Option.some.inj h ▸ hp⟩
  | @unwritten inner adif io _ hres =>
      exact ⟨fun x hx => Nat.le_succ_of_le (hc.file x hx),
        fun _ h => Option.some.inj h ▸ hc.push adif io.now (hw inner rfl)⟩
  | @removed inner seq =>
      have hmem : ∀ e ∈ (dropped inner seq).entries, e.seq.toNat ≤ n := fun e he =>
        (hc.memory inner rfl).2 e ((Fifo.delete_sublist _).subset he)
      exact ⟨seqs_ofEntries_le hmem,
        fun _ h => Option.some.inj h ▸ ⟨(hc.memory inner rfl).1, hmem⟩⟩
  | @unremoved inner seq =>
      exact ⟨hc.file, fun _ h => Option.some.inj h ▸ ⟨(hc.memory inner rfl).1, fun e he =>
        (hc.memory inner rfl).2 e ((Fifo.delete_sublist _).subset he)⟩⟩
  | killed => exact ⟨hc.file, nofun⟩

/-- **In any run of fewer than `2^64 - 1` appends the seqs are in order**, in the file and in
memory. -/
theorem Counted.run (hJ : J.Strict) {C : Sys → Act → Prop} {tr : List Act} {s : Sys}
    (h : Run (Step J) C Sys.fresh tr s) (hn : appends tr < UInt64.size - 1) :
    ∃ sh : FileShape J, s.disk.Has sh ∧ Ordered sh s.proc ∧ Counted (appends tr) sh s.proc := by
  refine h.invariant (I := fun tr s => appends tr < UInt64.size - 1 → ∃ sh : FileShape J,
    s.disk.Has sh ∧ Ordered sh s.proc ∧ Counted (appends tr) sh s.proc) ?_ ?_ hn
  · exact fun _ => ⟨.empty, rfl, .empty, nofun, nofun⟩
  · rintro tr s a s' - ih - hstep hlt
    rw [appends_append_singleton] at hlt ⊢
    obtain ⟨sh, hsh, ho, hc⟩ := ih (by omega)
    have hw : NoWrap s.proc a := by
      cases a with
      | appended =>
          intro inner hp
          have := (hc.memory inner hp).1
          simp only [Act.isAppend, if_true] at hlt
          exact lt_maxSeq (by omega)
      | _ => trivial
    obtain ⟨sh', hsh', hs⟩ := step_shape hJ hstep hsh
    exact ⟨sh', hsh', ho.step hs hw, hc.step hs hw⟩

/-- **The counter does not wrap in fewer than `2^64 - 1` appends.** -/
theorem nextSeq_lt_maxSeq (hJ : J.Strict) {C : Sys → Act → Prop} {tr : List Act} {s : Sys}
    (h : Run (Step J) C Sys.fresh tr s) (hn : appends tr + 1 < UInt64.size - 1) {inner : Inner}
    (hp : s.proc = some inner) : inner.nextSeq < maxSeq := by
  obtain ⟨sh, -, -, hc⟩ := Counted.run hJ h (by omega)
  have := (hc.memory inner hp).1
  exact lt_maxSeq (by omega)

end WavelogRelay.Queue
