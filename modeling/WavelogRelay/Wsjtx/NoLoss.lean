import WavelogRelay.Queue.Whole
import WavelogRelay.Wsjtx.Handoff

/-!
# WSJT-X — no QSO is lost

An entry is released when Wavelog answers a POST of it, or when it is evicted.  `Owed` says that it
was acknowledged and not released since, `Released` that it was released and not appended again
since.  When each write is all or nothing, and no redirect makes a GET of a POST, the file keeps
what is owed, over every order of the tasks and any number of processes.

* `step_effect`: what a step does to the queue.
* `Kept`: the invariant of a running process.  What is in the file and no longer in memory was
  released, what is in flight is the entry of its seq, and what is about to be removed was answered.
* `no_qso_lost`: what is owed is in the file, and what leaves the file was released.
* `diverted_qso_lost`: but not where a POST is redirected to a page that answers `{}`.
-/

namespace WavelogRelay.Wsjtx
open Library Queue Wavelog

/-! ### What is owed -/

/-- The act appends `x`, whatever comes of it. -/
def Act.Appends (x : Entry) : Act → Prop
  | .appended entry _ _ _ => entry = x
  | _ => False

/-- The append of `x` returns `Ok`. -/
def Act.Acks (x : Entry) : Act → Prop
  | .appended entry _ _ (.ok _) => entry = x
  | _ => False

/-- Wavelog answers a POST of `x`, or `x` is evicted. -/
def Act.Releases (W : WavelogJson) (x : Entry) : Act → Prop
  | .posted item _ attempts _ =>
      item.seq = some x.seq ∧ item.adif = x.adif ∧
        ∃ exchange ∈ attempts, ∃ met ∈ exchange.posts, Answered W met
  | .appended _ _ evicted _ => x ∈ evicted
  | _ => False

/-- No redirect makes a GET of a POST. -/
def Act.StaysPost : Act → Prop
  | .posted _ _ attempts _ => ∀ exchange ∈ attempts, exchange.StaysPost
  | _ => True

/-- Acknowledged, and not released since. -/
def Owed (W : WavelogJson) (x : Entry) (tr : List Act) : Prop :=
  Since (Act.Acks x) (fun a => ¬ a.Releases W x) tr

/-- Released, and not appended again since. -/
def Released (W : WavelogJson) (x : Entry) (tr : List Act) : Prop :=
  Since (Act.Releases W x) (fun a => ¬ a.Appends x) tr

theorem Act.Acks.appends {x : Entry} {a : Act} (h : a.Acks x) : a.Appends x := by
  cases a with
  | appended _ _ _ res =>
      cases res with
      | ok _ => exact h
      | error _ => cases h
  | _ => cases h

theorem Act.Appends.unique {x y : Entry} {a : Act} (hx : a.Appends x) (hy : a.Appends y) :
    x = y := by
  cases a with
  | appended => exact hx.symm.trans hy
  | _ => cases hx

variable {J : SerdeJson} {W : WavelogJson}

/-! ### What a step does to the queue -/

theorem step_effect {disk disk' : Disk} {p p' : Proc} {a : Act}
    (h : Step J W ⟨disk, some p⟩ a ⟨disk', some p'⟩) :
    (∃ adif io res, a = .appended (newEntry p.inner adif io.now) io (evicted p.inner) res ∧
      QsoQueue.append J p.inner disk adif io = (res, p'.inner, disk')) ∨
    (∃ seq io res, a = .removed seq io res ∧ p.worker = .removing seq ∧
      QsoQueue.remove J p.inner disk seq io = (res, p'.inner, disk')) ∨
    (a.call = none ∧ disk' = disk ∧ p'.inner = p.inner) := by
  cases h with
  | appended hl h => exact .inl ⟨_, _, _, rfl, h⟩
  | removed hw h => exact .inr (.inl ⟨_, _, _, rfl, hw, h⟩)
  | workerNotified hw hc => exact .inr (.inr ⟨rfl, rfl, by split <;> rfl⟩)
  | pushNotified hw hc => exact .inr (.inr ⟨rfl, rfl, by split <;> rfl⟩)
  | _ => exact .inr (.inr ⟨rfl, rfl, rfl⟩)

/-! ### What is in flight -/

def Listener.items : Listener → List QueueItem
  | .spawned replay => replay.map replayItem
  | .replaying rest => rest.map replayItem
  | .sending item => [item]
  | _ => []

def Worker.items : Worker → List QueueItem
  | .pushing item => [item]
  | .finishing item _ => [item]
  | _ => []

/-- The items that have been persisted and may still be pushed by this process. -/
def Proc.inFlight (p : Proc) : List QueueItem := p.listener.items ++ p.chan ++ p.worker.items

theorem mem_inFlight {p : Proc} {item : QueueItem} : item ∈ p.inFlight ↔
    item ∈ p.listener.items ∨ item ∈ p.chan ∨ item ∈ p.worker.items := by
  simp only [Proc.inFlight, List.mem_append, or_assoc]

/-- Only an acknowledged append puts an item in flight. -/
theorem inFlight_step {disk disk' : Disk} {p p' : Proc} {a : Act}
    (h : Step J W ⟨disk, some p⟩ a ⟨disk', some p'⟩) {item : QueueItem}
    (hi : item ∈ p'.inFlight) : item ∈ p.inFlight ∨ a.ackedItem = some item := by
  rw [mem_inFlight] at hi ⊢
  cases h with
  | @appended _ _ _ adif io inner' res hl h =>
      cases res <;> grind [Listener.items, afterAppend, Act.ackedItem, newEntry]
  | @finished _ _ item' res _ hw hsum =>
      rcases handlePostOutcome_cases res item' with hidle | ⟨seq, hseq⟩ <;> grind [Worker.items]
  -- any other step moves an item from one end of the channel to the other, or drops it
  | _ => grind [Listener.items, Worker.items, Proc.stopWorker]

/-! ### What a step does to the entries -/

/-- The seqs of the file and of the memory are below the next one. -/
structure Below (es : List Entry) (inner : Inner) : Prop where
  file : ∀ x ∈ es, x.seq < inner.nextSeq
  memory : ∀ x ∈ inner.entries, x.seq < inner.nextSeq

section Effect

variable {disk disk' : Disk} {p p' : Proc} {a : Act} {tr : List Act} {es : List Entry} {x : Entry}

/-- An entry that a step appends is new. -/
theorem not_appends_of_lt (h : Step J W ⟨disk, some p⟩ a ⟨disk', some p'⟩)
    (hx : x.seq < p.inner.nextSeq) : ¬ a.Appends x := by
  intro ha
  cases h with
  | appended hl h =>
      subst ha
      exact UInt64.lt_irrefl _ hx
  | _ => exact ha

theorem Released.snoc (h : Released W x tr) (ha : ¬ a.Appends x) : Released W x (tr ++ [a]) :=
  Since.snoc_of h ha

/-- **What leaves the memory was released**, if what is about to be removed was. -/
theorem memory_step (h : Step J W ⟨disk, some p⟩ a ⟨disk', some p'⟩)
    (hb : ∀ y ∈ p.inner.entries, y.seq < p.inner.nextSeq)
    (hrem : ∀ seq, p.worker = .removing seq → ∀ y ∈ p.inner.entries, y.seq = seq →
      Released W y tr) (hx : x ∈ p.inner.entries) :
    x ∈ p'.inner.entries ∨ Released W x (tr ++ [a]) := by
  have hnew := not_appends_of_lt h (hb x hx)
  rcases step_effect h with ⟨adif, io, res, rfl, happ⟩ | ⟨seq, io, res, rfl, hw, hrm⟩ | ⟨-, -, heq⟩
  · rw [(append_memory happ).1, pushed_entries]
    have hmem : x ∈ p.inner.entries ++ [newEntry p.inner adif io.now] := List.mem_append_left _ hx
    rw [← Fifo.dropped_append_push maxQueueLen_pos] at hmem
    rcases List.mem_append.mp hmem with hdrop | hkept
    · exact .inr (since_snoc_of hdrop)
    · exact .inl hkept
  · by_cases hseq : x.seq = seq
    · exact .inr ((hrem seq hw x hx hseq).snoc hnew)
    · refine .inl ?_
      rw [remove_memory hrm]
      exact List.mem_filter.mpr ⟨hx, by simpa using hseq⟩
  · exact .inl (heq ▸ hx)

/-- What an append adds to the memory is the new entry. -/
theorem appended_mem (h : Step J W ⟨disk, some p⟩ a ⟨disk', some p'⟩) (ha : a.Appends x) :
    x ∈ p'.inner.entries := by
  rcases step_effect h with ⟨adif, io, res, rfl, happ⟩ | ⟨seq, io, res, rfl, -⟩ | ⟨hcall, -, -⟩
  · obtain rfl := ha
    rw [(append_memory happ).1, pushed_entries, Fifo.push_eq maxQueueLen_pos]
    simp
  · cases ha
  · cases a with
    | appended => cases hcall
    | _ => cases ha

/-- **Nothing else comes into memory.** -/
theorem memory_gain (h : Step J W ⟨disk, some p⟩ a ⟨disk', some p'⟩)
    (hx : x ∈ p'.inner.entries) :
    x ∈ p.inner.entries ∨ a.Appends x ∧ x.seq = p.inner.nextSeq := by
  rcases step_effect h with ⟨adif, io, res, rfl, happ⟩ | ⟨seq, io, res, rfl, -, hrm⟩ | ⟨-, -, heq⟩
  · rw [(append_memory happ).1, pushed_entries] at hx
    rcases List.mem_append.mp ((Fifo.push_sublist_append _ _ _).subset hx) with hx | hx
    · exact .inl hx
    · obtain rfl := List.mem_singleton.mp hx
      exact .inr ⟨rfl, rfl⟩
  · rw [remove_memory hrm] at hx
    exact .inl ((Fifo.delete_sublist _).subset hx)
  · exact .inl (heq ▸ hx)

theorem nextSeq_step (h : Step J W ⟨disk, some p⟩ a ⟨disk', some p'⟩)
    (hlast : a.isAppend = true → p.inner.nextSeq < maxSeq) :
    p.inner.nextSeq ≤ p'.inner.nextSeq := by
  rcases step_effect h with ⟨adif, io, res, rfl, happ⟩ | ⟨seq, io, res, rfl, -, hrm⟩ | ⟨-, -, heq⟩
  · rw [(append_memory happ).1, pushed_nextSeq]
    exact UInt64.le_of_lt (lt_add_one (UInt64.le_refl _) (hlast rfl))
  · rw [remove_memory hrm]
    exact UInt64.le_refl _
  · exact heq ▸ UInt64.le_refl _

/-- **The file** stays as it is, without an acknowledgement; or gains what is new in memory; or
becomes what is in memory. -/
theorem file_step (hes : disk.Lists J es) (hwhole : ∀ entry io ev res,
      a = .appended entry io ev res → io.line.AllOrNothing (lineBytes J entry))
    (h : Step J W ⟨disk, some p⟩ a ⟨disk', some p'⟩) :
    ∃ es', disk'.Lists J es' ∧ ((es' = es ∧ ∀ y, ¬ a.Acks y) ∨
      (∃ e, a.Appends e ∧ es' = es ++ [e]) ∨ es' = p'.inner.entries) := by
  rcases step_effect h with ⟨adif, io, res, rfl, happ⟩ | ⟨seq, io, res, rfl, -, hrm⟩ |
    ⟨hcall, rfl, -⟩
  · rcases append_lists hes (hwhole _ _ _ _ rfl) happ with ⟨hsame, hres⟩ | hnew | hall
    · refine ⟨es, hsame, .inl ⟨rfl, fun y hy => ?_⟩⟩
      cases res with
      | ok seq => exact hres seq rfl
      | error e => exact hy
    · exact ⟨_, hnew, .inr (.inl ⟨_, rfl, rfl⟩)⟩
    · exact ⟨_, hall, .inr (.inr rfl)⟩
  · rcases remove_lists hrm with rfl | hall
    · exact ⟨es, hes, .inl ⟨rfl, fun y hy => hy⟩⟩
    · exact ⟨_, hall, .inr (.inr rfl)⟩
  · refine ⟨es, hes, .inl ⟨rfl, fun y hy => ?_⟩⟩
    cases a with
    | appended => cases hcall
    | _ => exact hy

end Effect

/-! ### The items and the worker -/

/-- The item is the entry of its seq, if that is still in memory. -/
def Vouched (inner : Inner) (item : QueueItem) : Prop :=
  ∃ s, item.seq = some s ∧ s < inner.nextSeq ∧ ∀ x ∈ inner.entries, x.seq = s → x.adif = item.adif

/-- The entry numbered `s`, if it is still in memory, has been released. -/
def Done (W : WavelogJson) (tr : List Act) (inner : Inner) (s : UInt64) : Prop :=
  s < inner.nextSeq ∧ ∀ x ∈ inner.entries, x.seq = s → Released W x tr

/-- What the worker is about to remove has been answered. -/
def Cleared (W : WavelogJson) (tr : List Act) (inner : Inner) : Worker → Prop
  | .finishing item res => Settles res → ∀ s, item.seq = some s → Done W tr inner s
  | .removing s => Done W tr inner s
  | _ => True

section Items

variable {disk disk' : Disk} {p p' : Proc} {a : Act} {tr : List Act}

theorem Vouched.step (h : Step J W ⟨disk, some p⟩ a ⟨disk', some p'⟩)
    (hlast : a.isAppend = true → p.inner.nextSeq < maxSeq) {item : QueueItem}
    (hv : Vouched p.inner item) : Vouched p'.inner item := by
  obtain ⟨s, hs, hlt, hadif⟩ := hv
  refine ⟨s, hs, UInt64.lt_of_lt_of_le hlt (nextSeq_step h hlast), fun x hx hseq => ?_⟩
  rcases memory_gain h hx with hx | ⟨-, hnew⟩
  · exact hadif x hx hseq
  · rw [← hseq, hnew] at hlt
    exact absurd hlt (UInt64.lt_irrefl _)

/-- An item that has just been persisted. -/
theorem vouched_acked (h : Step J W ⟨disk, some p⟩ a ⟨disk', some p'⟩)
    (hlast : a.isAppend = true → p.inner.nextSeq < maxSeq)
    (hb : ∀ x ∈ p.inner.entries, x.seq < p.inner.nextSeq) {item : QueueItem}
    (ha : a.ackedItem = some item) : Vouched p'.inner item := by
  have hgain : ∀ x ∈ p'.inner.entries, x ∈ p.inner.entries ∨ a.Appends x ∧ _ :=
    fun x hx => memory_gain h hx
  rcases step_effect h with ⟨adif, io, res, rfl, happ⟩ | ⟨seq, io, res, rfl, -⟩ | ⟨hcall, -, -⟩
  · cases res with
    | error e => cases ha
    | ok seq =>
        cases ha
        obtain ⟨heq, hseq⟩ := append_memory happ
        obtain rfl := hseq seq rfl
        refine ⟨_, rfl, ?_, fun x hx hxseq => ?_⟩
        · rw [heq]
          exact lt_add_one (UInt64.le_refl _) (hlast rfl)
        · rcases hgain x hx with hx | ⟨rfl, -⟩
          · exact absurd (hxseq ▸ hb x hx) (UInt64.lt_irrefl _)
          · rfl
  · cases ha
  · cases a with
    | appended => cases hcall
    | _ => cases ha

theorem Done.step (h : Step J W ⟨disk, some p⟩ a ⟨disk', some p'⟩)
    (hlast : a.isAppend = true → p.inner.nextSeq < maxSeq) {s : UInt64}
    (hd : Done W tr p.inner s) : Done W (tr ++ [a]) p'.inner s := by
  obtain ⟨hlt, hrel⟩ := hd
  refine ⟨UInt64.lt_of_lt_of_le hlt (nextSeq_step h hlast), fun x hx hseq => ?_⟩
  rcases memory_gain h hx with hx | ⟨-, hnew⟩
  · exact (hrel x hx hseq).snoc (not_appends_of_lt h (hseq ▸ hlt))
  · rw [← hseq, hnew] at hlt
    exact absurd hlt (UInt64.lt_irrefl _)

theorem Cleared.step (h : Step J W ⟨disk, some p⟩ a ⟨disk', some p'⟩)
    (hlast : a.isAppend = true → p.inner.nextSeq < maxSeq) (hpost : a.StaysPost)
    (hv : ∀ item ∈ p.inFlight, Vouched p.inner item) (hc : Cleared W tr p.inner p.worker) :
    Cleared W (tr ++ [a]) p'.inner p'.worker := by
  -- where the worker stays where it is
  have hsame : p'.worker = p.worker → Cleared W (tr ++ [a]) p'.inner p'.worker := fun heq => by
    rw [heq]
    cases hw : p.worker with
    | finishing item res =>
        rw [hw] at hc
        exact fun hres s hs => (hc hres s hs).step h hlast
    | removing s =>
        rw [hw] at hc
        exact Done.step h hlast hc
    | _ => trivial
  cases h with
  | workerReturns hw hs => trivial
  | workerStarts hw hs => trivial
  | taken hw hchan => trivial
  | chanEnded hw hchan hl => trivial
  | workerNotified hw hc' =>
      split
      · trivial
      · exact hw ▸ trivial
  | pushNotified hw hc' => split <;> trivial
  | @posted _ _ item station attempts res hw hres =>
      intro hsettles s hs
      obtain ⟨x, hx, hans⟩ := pushOne_settles hres hsettles
      have hmet : x.last ∈ x.posts := (hpost x hx).last_mem
      have hitem : item ∈ p.inFlight := mem_inFlight.mpr (.inr (.inr (by simp [hw, Worker.items])))
      obtain ⟨s', hs', hlt, hadif⟩ := hv item hitem
      obtain rfl := Option.some.inj (hs.symm.trans hs')
      exact ⟨hlt, fun y hy hseq => since_snoc_of
        ⟨hseq ▸ hs, (hadif y hy hseq).symm, x, hx, x.last, hmet, hans⟩⟩
  | @finished _ _ item res _ hw hsum =>
      rw [hw] at hc
      rcases handlePostOutcome_cases res item with hidle | ⟨seq, hseq⟩
      · change Cleared _ _ _ (handlePostOutcome res item)
        rw [hidle]
        trivial
      · obtain ⟨hitem, hres⟩ := handlePostOutcome_removing hseq
        change Cleared _ _ _ (handlePostOutcome res item)
        rw [hseq]
        obtain ⟨hlt, hrel⟩ := hc hres seq hitem
        exact ⟨hlt, fun x hx hxseq => (hrel x hx hxseq).snoc (fun hx => hx)⟩
  | removed hw h => trivial
  | _ => exact hsame rfl

end Items

/-! ### The invariant -/

/-- Of the file: it holds what is owed, and what is owed is not released. -/
structure Filed (W : WavelogJson) (tr : List Act) (es : List Entry) : Prop where
  owed : ∀ x, Owed W x tr → x ∈ es
  separate : ∀ x, Owed W x tr → ¬ Released W x tr

/-- Of a running process. -/
structure Kept (W : WavelogJson) (tr : List Act) (es : List Entry) (p : Proc) : Prop where
  owed : ∀ x, Owed W x tr → x ∈ p.inner.entries
  file : ∀ x ∈ es, x ∈ p.inner.entries ∨ Released W x tr
  items : ∀ item ∈ p.inFlight, Vouched p.inner item
  cleared : Cleared W tr p.inner p.worker

/-- No step makes an entry both owed and released. -/
theorem separate_step {disk disk' : Disk} {p p' : Proc} {a : Act} {tr : List Act}
    {es : List Entry} (h : Step J W ⟨disk, some p⟩ a ⟨disk', some p'⟩) (hb : Below es p.inner)
    (hf : Filed W tr es) (x : Entry) (ho : Owed W x (tr ++ [a])) :
    ¬ Released W x (tr ++ [a]) := by
  intro hr
  rcases since_snoc.mp ho with hack | ⟨ho, hnot⟩ <;>
    rcases since_snoc.mp hr with hrel | ⟨hr, happ⟩
  · cases h with
    | appended hl h =>
        have hmem := List.mem_of_mem_take hrel
        exact not_appends_of_lt (J := J) (W := W) (.appended hl h) (hb.memory x hmem) hack.appends
    | _ => exact hack
  · exact happ hack.appends
  · exact hnot hrel
  · exact hf.separate x ho hr

/-- **One step of a process.**  It keeps the invariant, and what leaves the file was released. -/
theorem Kept.step {disk disk' : Disk} {p p' : Proc} {a : Act} {tr : List Act} {es : List Entry}
    (h : Step J W ⟨disk, some p⟩ a ⟨disk', some p'⟩)
    (hlast : a.isAppend = true → p.inner.nextSeq < maxSeq) (hb : Below es p.inner)
    (hes : disk.Lists J es) (hwhole : ∀ entry io ev res,
      a = .appended entry io ev res → io.line.AllOrNothing (lineBytes J entry))
    (hpost : a.StaysPost) (hf : Filed W tr es) (hk : Kept W tr es p) :
    ∃ es', disk'.Lists J es' ∧ Filed W (tr ++ [a]) es' ∧ Kept W (tr ++ [a]) es' p' ∧
      ∀ x ∈ es, x ∉ es' → Released W x (tr ++ [a]) := by
  have hmem : ∀ x ∈ p.inner.entries, x ∈ p'.inner.entries ∨ Released W x (tr ++ [a]) :=
    fun x hx => memory_step h hb.memory (fun seq hw y hy hseq => by
      have hc := hk.cleared
      rw [hw] at hc
      exact hc.2 y hy hseq) hx
  -- what was in the file is still in memory, or released
  have hfile : ∀ x ∈ es, x ∈ p'.inner.entries ∨ Released W x (tr ++ [a]) := fun x hx => by
    rcases hk.file x hx with hx' | hrel
    · exact hmem x hx'
    · exact .inr (hrel.snoc (not_appends_of_lt h (hb.file x hx)))
  have hsep := separate_step h hb hf
  have howed : ∀ x, Owed W x (tr ++ [a]) → x ∈ p'.inner.entries := fun x ho => by
    rcases since_snoc.mp ho with hack | ⟨ho', -⟩
    · exact appended_mem h hack.appends
    · exact (hmem x (hk.owed x ho')).resolve_right (hsep x ho)
  have hitems : ∀ item ∈ p'.inFlight, Vouched p'.inner item := fun item hi => by
    rcases inFlight_step h hi with hi | hack
    · exact (hk.items item hi).step h hlast
    · exact vouched_acked h hlast hb.memory hack
  have hcleared := Cleared.step h hlast hpost hk.items hk.cleared
  obtain ⟨es', hes', ⟨rfl, hack⟩ | ⟨e, he, rfl⟩ | rfl⟩ := file_step hes hwhole h
  · refine ⟨es', hes', ⟨fun x ho => ?_, hsep⟩, ⟨howed, hfile, hitems, hcleared⟩,
      fun x hx hnot => absurd hx hnot⟩
    rcases since_snoc.mp ho with hx | ⟨ho, -⟩
    · exact absurd hx (hack x)
    · exact hf.owed x ho
  · refine ⟨_, hes', ⟨fun x ho => ?_, hsep⟩, ⟨howed, fun x hx => ?_, hitems, hcleared⟩,
      fun x hx hnot => absurd (List.mem_append_left _ hx) hnot⟩
    · rcases since_snoc.mp ho with hx | ⟨ho, -⟩
      · simp [hx.appends.unique he]
      · exact List.mem_append_left _ (hf.owed x ho)
    · rcases List.mem_append.mp hx with hx | hx
      · exact hfile x hx
      · obtain rfl := List.mem_singleton.mp hx
        exact .inl (appended_mem h he)
  · exact ⟨_, hes', ⟨howed, hsep⟩, ⟨howed, fun x hx => .inl hx, hitems, hcleared⟩,
      fun x hx hnot => (hfile x hx).resolve_left hnot⟩

/-- An act that is no append and no push. -/
theorem Filed.snoc {tr : List Act} {es : List Entry} {a : Act} (hf : Filed W tr es)
    (happ : ∀ x, ¬ a.Appends x) (hrel : ∀ x, ¬ a.Releases W x) : Filed W (tr ++ [a]) es := by
  have howed : ∀ x, Owed W x (tr ++ [a]) → Owed W x tr := fun x ho =>
    ((since_snoc.mp ho).resolve_left fun hack => happ x hack.appends).1
  refine ⟨fun x ho => hf.owed x (howed x ho), fun x ho hr => ?_⟩
  exact hf.separate x (howed x ho) ((since_snoc.mp hr).resolve_left (hrel x)).1

/-- A process that has just started. -/
theorem Kept.start {tr : List Act} {es : List Entry} {inner : Inner} {replay : Replay}
    (hf : Filed W tr es) (hes : inner.entries = es) (hreplay : replay = es.map Entry.pair)
    (hs : Fifo.Sorted (·.seq) es) (hlt : ∀ x ∈ es, x.seq < inner.nextSeq) :
    Kept W tr es (.spawn inner replay) where
  owed x ho := hes ▸ hf.owed x ho
  file x hx := .inl (hes ▸ hx)
  items item hi := by
    obtain ⟨x, hx, rfl⟩ : ∃ x ∈ es, replayItem x.pair = item := by
      simpa [mem_inFlight, Proc.spawn, Listener.items, Worker.items, hreplay] using hi
    refine ⟨x.seq, rfl, hlt x hx, fun y hy hseq => ?_⟩
    have hy : y ∈ es := hes ▸ hy
    rw [Fifo.Sorted.eq_of_key UInt64.lt_irrefl hs hy hx hseq]
    rfl
  cleared := trivial

/-- The condition on the steps of a run: every write of a line goes through or does nothing. -/
def WholeWrites (J : SerdeJson) (_ : World) : Act → Prop
  | .appended entry io _ _ => io.line.AllOrNothing (lineBytes J entry)
  | _ => True

/-- So it does, and no POST is made a GET. -/
def Orderly (J : SerdeJson) (w : World) (a : Act) : Prop := WholeWrites J w a ∧ a.StaysPost

/-- **One step of a run.**  It keeps the invariant, and what leaves the file was released. -/
theorem keeps_step (hJ : J.Strict) {tr : List Act} {w w' : World} {a : Act}
    (h : Run (Step J W) (Orderly J) World.fresh tr w) (hC : Orderly J w a)
    (hs : Step J W w a w') (hn : qsos (tr ++ [a]) < UInt64.size - 1) {es : List Entry}
    (hes : w.disk.Lists J es) (hf : Filed W tr es)
    (hk : ∀ p, w.proc = some p → Kept W tr es p) :
    ∃ es', w'.disk.Lists J es' ∧ Filed W (tr ++ [a]) es' ∧
      (∀ p, w'.proc = some p → Kept W (tr ++ [a]) es' p) ∧
      ∀ x ∈ es, x ∉ es' → Released W x (tr ++ [a]) := by
  obtain ⟨sh, hsh, ho⟩ := ordered hJ h (by rw [qsos_snoc] at hn; omega)
  obtain ⟨sh', -, ho'⟩ := ordered hJ (h.extend hs hC) hn
  have hseqs : ∀ x ∈ es, x.seq ∈ sh.seqs := fun x hx => by
    rw [← FileShape.entries_of_reads (hes.reads hJ hsh)] at hx
    exact FileShape.seqs_sublist.subset (List.mem_map_of_mem hx)
  have hloss : ∀ x ∈ es, x ∉ es → Released W x (tr ++ [a]) := fun x hx hnot => absurd hx hnot
  obtain ⟨disk, _ | p⟩ := w
  · -- a process starts, or fails to
    cases hs with
    | @opened _ _ io inner replay h' =>
        obtain ⟨rfl, hres⟩ := open_lists hJ.toLawful hes h'
        obtain ⟨rfl, hreplay⟩ := hres _ _ rfl
        have hf' : Filed W (tr ++ [.opened io replay]) es :=
          hf.snoc (fun _ hx => hx) fun _ hx => hx
        refine ⟨es, hes, hf', fun p hp => ?_, hloss⟩
        rw [← Option.some.inj hp]
        exact .start hf' rfl hreplay (ho'.memory _ rfl) (ho'.memory_lt _ rfl)
    | openFailed h' =>
        obtain ⟨rfl, -⟩ := open_lists hJ.toLawful hes h'
        exact ⟨es, hes, hf.snoc (fun _ hx => hx) fun _ hx => hx, fun _ hp => (by cases hp), hloss⟩
  · obtain ⟨disk', _ | p'⟩ := w'
    · -- the process ends
      have hends : disk' = disk ∧ (∀ x, ¬ a.Appends x) ∧ ∀ x, ¬ a.Releases W x := by
        cases hs <;> exact ⟨rfl, fun _ hx => hx, fun _ hx => hx⟩
      obtain ⟨rfl, happ, hrel⟩ := hends
      exact ⟨es, hes, hf.snoc happ hrel, fun _ hp => (by cases hp), hloss⟩
    · have hb : Below es p.inner :=
        ⟨fun x hx => ho.next p.inner rfl _ (hseqs x hx), ho.memory_lt p.inner rfl⟩
      have hlast : a.isAppend = true → p.inner.nextSeq < maxSeq := fun happ => by
        rw [qsos_snoc, if_pos happ] at hn
        exact nextSeq_lt hJ h hn rfl
      have hwhole : ∀ entry io ev res, a = .appended entry io ev res →
          io.line.AllOrNothing (lineBytes J entry) := by
        rintro entry io ev res rfl
        exact hC.1
      obtain ⟨es', hes', hf', hk', hloss'⟩ := (hk p rfl).step hs hlast hb hes hwhole hC.2 hf
      exact ⟨es', hes', hf', fun _ hp => Option.some.inj hp ▸ hk', hloss'⟩

theorem keeps_run (hJ : J.Strict) {tr : List Act} {w : World}
    (h : Run (Step J W) (Orderly J) World.fresh tr w) (hn : qsos tr < UInt64.size - 1) :
    ∃ es, w.disk.Lists J es ∧ Filed W tr es ∧ ∀ p, w.proc = some p → Kept W tr es p := by
  refine h.invariant (I := fun tr w => qsos tr < UInt64.size - 1 → ∃ es, w.disk.Lists J es ∧
    Filed W tr es ∧ ∀ p, w.proc = some p → Kept W tr es p) (fun _ => ?_) ?_ hn
  · exact ⟨[], .inl ⟨rfl, rfl⟩, ⟨fun x ho => absurd ho not_since_nil,
      fun x ho => absurd ho not_since_nil⟩, nofun⟩
  · intro tr w a w' h ih hC hs hn
    obtain ⟨es, hes, hf, hk⟩ := ih (by rw [qsos_snoc] at hn; omega)
    obtain ⟨es', hes', hf', hk', -⟩ := keeps_step hJ h hC hs hn hes hf hk
    exact ⟨es', hes', hf', hk'⟩

/-- **No QSO is lost**: what was acknowledged is in the file or was released since, and what leaves
the file was released. -/
theorem no_qso_lost (hJ : J.Strict) {tr : List Act} {w : World}
    (h : Run (Step J W) (Orderly J) World.fresh tr w) (hn : qsos tr < UInt64.size - 1) :
    (∀ x, Owed W x tr → x ∈ w.disk.stored J) ∧
      ∀ a w', Orderly J w a → Step J W w a w' → qsos (tr ++ [a]) < UInt64.size - 1 →
        ∀ x ∈ w.disk.stored J, x ∉ w'.disk.stored J → Released W x (tr ++ [a]) := by
  obtain ⟨es, hes, hf, hk⟩ := keeps_run hJ h hn
  rw [hes.stored hJ.toLawful]
  refine ⟨hf.owed, fun a w' hC hs hn' => ?_⟩
  obtain ⟨es', hes', -, -, hloss⟩ := keeps_step hJ h hC hs hn' hes hf hk
  rwa [hes'.stored hJ.toLawful]

theorem Faultless.whole {J : SerdeJson} {w : World} {a : Act} (h : Faultless w a) :
    WholeWrites J w a := by
  cases a with
  | appended entry io ev res =>
      have hio : io = { now := io.now } := h
      rw [hio]
      trivial
  | _ => trivial

/-! ### A first QSO, and one after the last seq -/

/-- The first start, and a QSO that is acknowledged: it is in the file. -/
theorem first_qso_stored : qsoA ∈ (⟨some (lineBytes json qsoA), []⟩ : Disk).stored json := by
  have happ : QsoQueue.append json ⟨[], 1⟩ ⟨none, []⟩ adifA { now := 0 } =
      (.ok 1, ⟨[qsoA], 2⟩, ⟨some (lineBytes json qsoA), []⟩) := by decide +kernel
  have hrun : Run (Step json createdJson) (Orderly json) World.fresh
      ([.opened {} [], .listener, .listener, .worker] ++
        [.received datagramA adifA, .appended qsoA { now := 0 } [] (.ok 1)])
      ⟨⟨some (lineBytes json qsoA), []⟩, some { Proc.waiting ⟨[qsoA], 2⟩ with
        listener := .sending (replayItem qsoA.pair) }⟩ := by
    have hstart : ∀ a ∈ [.opened {} [], .listener, .listener, .worker], Act.StaysPost a := by
      simp [Act.StaysPost]
    refine ((start_run rfl).mono_on fun s a ha hC => ⟨Faultless.whole hC, hstart a ha⟩).trans ?_
    refine .cons ⟨trivial, trivial⟩ (.received rfl receive_datagramA) ?_
    refine .cons ⟨trivial, trivial⟩ (.append_of rfl happ rfl ?_) .nil
    exact Fifo.dropped_of_lt maxQueueLen_pos
  have howed : Owed createdJson qsoA ([.opened {} [], .listener, .listener, .worker] ++
      [.received datagramA adifA, .appended qsoA { now := 0 } [] (.ok 1)]) :=
    ⟨[.opened {} [], .listener, .listener, .worker, .received datagramA adifA],
      .appended qsoA { now := 0 } [] (.ok 1), [], rfl, rfl, by rintro _ ⟨⟩⟩
  exact (no_qso_lost json_strict hrun (by decide)).1 qsoA howed

/-- The counter gets to any seq. -/
theorem count_up (n : Nat) : ∃ disk tr, disk.Lists json [] ∧
    Run (Step json createdJson) Faultless World.fresh tr
      ⟨disk, some (.waiting ⟨[], .ofNat (n + 1)⟩)⟩ := by
  induction n with
  | zero => exact ⟨_, _, .inl ⟨rfl, rfl⟩, start_run rfl⟩
  | succ n ih =>
      obtain ⟨disk, tr, hdisk, hrun⟩ := ih
      obtain ⟨disk', hdisk', hqso⟩ :=
        qso_run receive_datagramA pushOne_created (.ofNat (n + 1)) rfl hdisk
      exact ⟨disk', _, hdisk', UInt64.ofNat_add (n + 1) 1 ▸ hrun.trans hqso⟩

def lastEntry : Entry := { seq := maxSeq, adif := adifA, receivedAt := 0 }

def firstEntry : Entry := { seq := 0, adif := adifA, receivedAt := 0 }

/-- It gets the seq that `firstEntry` has. -/
def lostEntry : Entry := { seq := 0, adif := adifB, receivedAt := 0 }

/-- The QSOs that get the last seq and, the counter having wrapped, the first one. -/
def wrapActs : List Act :=
  [.received datagramA adifA, .appended lastEntry { now := 0 } [] (.ok maxSeq),
    .sent (replayItem lastEntry.pair), .received datagramA adifA,
    .appended firstEntry { now := 0 } [] (.ok 0), .killed]

theorem wrap_run {disk : Disk} (hdisk : disk.Lists json []) :
    ∃ disk', disk'.Lists json [lastEntry, firstEntry] ∧
      Run (Step json createdJson) Faultless ⟨disk, some (.waiting ⟨[], maxSeq⟩)⟩ wrapActs
        ⟨disk', none⟩ := by
  have hlen₁ : ([] : List Entry).length < maxQueueLen := maxQueueLen_pos
  have hlen₂ : [lastEntry].length < maxQueueLen := lt_maxQueueLen (by decide)
  obtain ⟨disk₁, happ₁, hdisk₁⟩ := append_below maxSeq adifA 0 hlen₁ hdisk
  obtain ⟨disk₂, happ₂, hdisk₂⟩ := append_below 0 adifA 0 hlen₂ hdisk₁
  refine ⟨disk₂, hdisk₂, ?_⟩
  refine .cons trivial (.received rfl receive_datagramA) ?_
  refine .cons rfl (.append_of rfl happ₁ rfl (Fifo.dropped_of_lt hlen₁)) ?_
  refine .cons trivial (.trySent rfl nofun (by decide)) ?_
  refine .cons trivial (.received rfl receive_datagramA) ?_
  refine .cons rfl (.append_of rfl happ₂ rfl (Fifo.dropped_of_lt hlen₂)) ?_
  exact .cons trivial .killed .nil

/-- The next process starts over with the first seq, and receives a QSO. -/
def restartActs : List Act :=
  [.opened {} [lastEntry.pair, firstEntry.pair], .listener, .sent (replayItem lastEntry.pair),
    .sent (replayItem firstEntry.pair), .listener, .worker, .received datagramB adifB]

/-- It pushes the two it replays, and removes their seqs. -/
def removeActs : List Act :=
  [lastEntry, firstEntry].flatMap fun e =>
    [.taken (replayItem e.pair),
      .posted (replayItem e.pair) (.fixed ['1']) [createdAnswer] (.ok ()), .worker,
      .removed e.seq .ok (.ok ())]

theorem restart_run {disk : Disk} (hdisk : disk.Lists json [lastEntry, firstEntry]) :
    ∃ w : World, w.disk.Lists json [] ∧ Run (Step json createdJson) Faultless ⟨disk, none⟩
      (restartActs ++ .appended lostEntry { now := 0 } [] (.ok 0) :: removeActs) w := by
  have hlen : [lastEntry, firstEntry].length < maxQueueLen := lt_maxQueueLen (by decide)
  have hopen : QsoQueue.open json disk {} = _ := open_of_lists json_strict.toLawful rfl hdisk
  obtain ⟨disk₁, happ, hdisk₁⟩ := append_below 0 adifB 0 hlen hdisk
  obtain ⟨disk₂, hrem₁, hdisk₂⟩ := remove_of_lists ⟨_, 1⟩ maxSeq hdisk₁
  obtain ⟨disk₃, hrem₂, hdisk₃⟩ := remove_of_lists _ 0 hdisk₂
  have hsum := summarizeAdif_of_receive receive_datagramA
  let p : Proc := { Proc.waiting ⟨[], 1⟩ with listener := .sending (replayItem lostEntry.pair) }
  refine ⟨⟨disk₃, some p⟩, hdisk₃, ?_⟩
  refine .cons rfl (.opened hopen) ?_
  refine .cons trivial (.listenerStarts rfl rfl) ?_
  refine .cons trivial (.replaySent rfl nofun (by decide)) ?_
  refine .cons trivial (.replaySent rfl nofun (by decide)) ?_
  refine .cons trivial (.replayDone rfl) ?_
  refine .cons trivial (.workerStarts rfl rfl) ?_
  refine .cons trivial (.received rfl receive_datagramB) ?_
  refine .cons rfl (.append_of rfl happ rfl (Fifo.dropped_of_lt hlen)) ?_
  refine .cons trivial (.taken rfl rfl) ?_
  refine .cons trivial (.posted rfl pushOne_created) ?_
  refine .cons trivial (.finished rfl hsum) ?_
  refine .cons rfl (.removed rfl hrem₁) ?_
  refine .cons trivial (.taken rfl rfl) ?_
  refine .cons trivial (.posted rfl pushOne_created) ?_
  refine .cons trivial (.finished rfl hsum) ?_
  exact .cons rfl (.removed rfl hrem₂) .nil

/-- What `serde_json` makes of the body of a page that is an empty object. -/
def pageJson : WavelogJson where
  qsoResponse body :=
    if body = "\x7b\x7d".toList then some { status := none, reason := none } else none
  stationInfo _ := none

/-- The POST is answered with 302, and the GET that `reqwest` makes of it with an empty object. -/
def divertedAnswer : Exchange where
  redirects := [.found]
  last := .answered 200 (some "\x7b\x7d".toList)

/-- The first start, and a QSO whose POST is diverted. -/
def divertedActs : List Act :=
  [.opened {} [], .listener, .listener, .worker] ++
    qsoActs datagramA adifA 1 (.fixed ['1']) [divertedAnswer]
      (.error (.rejected "unknown".toList))

/-- **A QSO whose POST is redirected can be lost**: the worker takes the answer of the page that
the redirect leads to for a rejection. -/
theorem diverted_qso_lost : ¬ ∀ (J : SerdeJson) (W : WavelogJson), J.Strict → ∀ tr w,
    Run (Step J W) (WholeWrites J) World.fresh tr w →
      ∀ x, Owed W x tr → x ∈ w.disk.stored J := fun h => by
  have hlists : (⟨none, []⟩ : Disk).Lists json [] := .inl ⟨rfl, rfl⟩
  have hpush : pushOne pageJson (.fixed ['1']) [divertedAnswer] =
      some (.error (.rejected "unknown".toList)) := by decide +kernel
  obtain ⟨disk, hdisk, hqso⟩ := qso_run receive_datagramA hpush 1 rfl hlists
  have hrun := (start_run rfl).trans hqso
  have howed : Owed pageJson qsoA divertedActs := by
    refine ⟨[.opened {} [], .listener, .listener, .worker, .received datagramA adifA],
      .appended qsoA { now := 0 } [] (.ok 1), _, rfl, rfl, ?_⟩
    -- its only POST was answered with 302
    simp [Act.Releases, divertedAnswer, Exchange.posts, postsOf, Redirect.status, Redirect.repeats,
      Answered, isSuccess]
  have hstored := h json pageJson json_strict _ _ (hrun.mono fun _ _ => Faultless.whole) qsoA howed
  rw [hdisk.stored json_strict.toLawful] at hstored
  cases hstored

/-- **After `2^64 - 1` QSOs one can be lost**: its seq is that of another. -/
theorem qso_lost_after_last_seq : ¬ ∀ (J : SerdeJson) (W : WavelogJson), J.Strict → ∀ tr w,
    Run (Step J W) (WholeWrites J) World.fresh tr w →
      ∀ x, Owed W x tr → x ∈ w.disk.stored J := fun h => by
  obtain ⟨disk, tr, hdisk, hrun⟩ := count_up (UInt64.size - 2)
  obtain ⟨disk', hdisk', hwrap⟩ := wrap_run hdisk
  obtain ⟨w, hw, hrestart⟩ := restart_run hdisk'
  have hrun := (hrun.trans hwrap).trans hrestart
  have howed : Owed createdJson lostEntry (tr ++ wrapActs ++
      (restartActs ++ .appended lostEntry { now := 0 } [] (.ok 0) :: removeActs)) := by
    refine ⟨tr ++ wrapActs ++ restartActs, .appended lostEntry { now := 0 } [] (.ok 0),
      removeActs, by simp, rfl, ?_⟩
    -- the items pushed have another text
    have hne : adifA ≠ adifB := by decide
    simp [removeActs, Act.Releases, lostEntry, lastEntry, firstEntry, replayItem, hne]
  have hstored := h json createdJson json_strict _ w (hrun.mono fun _ _ => Faultless.whole)
    lostEntry howed
  rw [hw.stored json_strict.toLawful] at hstored
  cases hstored

end WavelogRelay.Wsjtx
