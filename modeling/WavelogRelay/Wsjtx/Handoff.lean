import WavelogRelay.Library.Since
import WavelogRelay.Queue.Whole
import WavelogRelay.Wsjtx.Pipeline

/-!
# WSJT-X — the hand-off from the listener to the worker

What one process does with its items, in order: the acts `cur` since it opened the queue.  `Handoff`
is what they satisfy whatever has become of the process; `Handing` is the invariant that ties them
to where its tasks stand.

* `handoff_in_order`: the worker takes items of increasing seqs, those replayed from the file
  first, and removes a seq only once the POST of its item is settled.
-/

namespace WavelogRelay.Wsjtx
open Library Queue Wavelog

/-! ### What has been done -/

@[simp] def Act.ackedItem : Act → Option QueueItem
  | .appended entry _ _ (.ok seq) => some { seq := some seq, adif := entry.adif }
  | _ => none

@[simp] def Act.sentItem : Act → Option QueueItem
  | .sent item => some item
  | _ => none

@[simp] def Act.takenItem : Act → Option QueueItem
  | .taken item => some item
  | _ => none

@[simp] def Act.postedItem : Act → Option QueueItem
  | .posted item .. => some item
  | _ => none

/-- The QSOs received and persisted, as the items they are sent as. -/
def ackedItems (cur : List Act) : List QueueItem := cur.filterMap Act.ackedItem

def sentItems (cur : List Act) : List QueueItem := cur.filterMap Act.sentItem

def takenItems (cur : List Act) : List QueueItem := cur.filterMap Act.takenItem

/-- The items whose push has finished. -/
def postedItems (cur : List Act) : List QueueItem := cur.filterMap Act.postedItem

theorem filterMap_snoc {α β : Type} (f : α → Option β) (l : List α) (a : α) :
    (l ++ [a]).filterMap f = l.filterMap f ++ (f a).toList := by
  rw [List.filterMap_append]
  cases h : f a <;> simp [h]

section Snoc

variable (cur : List Act) (a : Act)

@[simp] theorem ackedItems_snoc : ackedItems (cur ++ [a]) = ackedItems cur ++ a.ackedItem.toList :=
  filterMap_snoc _ _ _

@[simp] theorem sentItems_snoc : sentItems (cur ++ [a]) = sentItems cur ++ a.sentItem.toList :=
  filterMap_snoc _ _ _

@[simp] theorem takenItems_snoc : takenItems (cur ++ [a]) = takenItems cur ++ a.takenItem.toList :=
  filterMap_snoc _ _ _

@[simp] theorem postedItems_snoc :
    postedItems (cur ++ [a]) = postedItems cur ++ a.postedItem.toList := filterMap_snoc _ _ _

end Snoc

/-- The push of the item numbered `seq` has finished, and settled it. -/
def PostSettled (seq : UInt64) (cur : List Act) : Prop :=
  ∃ item station attempts res,
    .posted item station attempts res ∈ cur ∧ item.seq = some seq ∧ Settles res

theorem PostSettled.snoc {seq : UInt64} {cur : List Act} (h : PostSettled seq cur) (a : Act) :
    PostSettled seq (cur ++ [a]) := by
  obtain ⟨item, station, attempts, res, hm, h⟩ := h
  exact ⟨item, station, attempts, res, List.mem_append_left _ hm, h⟩

/-- The items have increasing seqs. -/
def Increasing (items : List QueueItem) : Prop :=
  ∃ seqs : List UInt64, items.map (·.seq) = seqs.map some ∧ seqs.Pairwise (· < ·)

/-- What a process that opened the queue with `replay` may have done. -/
structure Handoff (replay : Replay) (cur : List Act) : Prop where
  increasing : Increasing (takenItems cur)
  /-- The replayed items come first, all of them if any other comes. -/
  replay_first : ∃ replayed received, takenItems cur = replayed ++ received ∧
    replayed <+: replay.map replayItem ∧ received.Sublist (ackedItems cur) ∧
    (received ≠ [] → replayed = replay.map replayItem)
  /-- Each item taken is pushed at most once. -/
  posted_once : (postedItems cur).Sublist (takenItems cur)
  settled_first : ∀ pre seq io res post, cur = pre ++ .removed seq io res :: post →
    PostSettled seq pre

/-! ### The listener -/

/-- What may be in the channel, or taken out of it: replayed items, then received ones. -/
def Sent (replayed acked sent : List QueueItem) : Prop :=
  ∃ r n, sent = r ++ n ∧ r <+: replayed ∧ n.Sublist acked ∧ (n ≠ [] → r = replayed)

theorem Sent.of_prefix {replayed acked sent l : List QueueItem} (h : Sent replayed acked sent)
    (hl : l <+: sent) : Sent replayed acked l := by
  obtain ⟨r, n, rfl, hr, hn, hall⟩ := h
  obtain ⟨rest, hl⟩ := hl
  rcases List.append_eq_append_iff.mp hl with ⟨r', rfl, rfl⟩ | ⟨n', rfl, rfl⟩
  · exact ⟨l, [], by simp, (List.prefix_append _ _).trans hr, List.nil_sublist _, by simp⟩
  · refine ⟨r, n', rfl, hr, (List.sublist_append_left _ _).trans hn, fun hne => hall ?_⟩
    exact List.append_ne_nil_of_left_ne_nil hne _

/-- What the listener has sent, by where it is. -/
def Fed (replayed acked sent : List QueueItem) : Listener → Prop
  | .spawned replay => replay.map replayItem = replayed ∧ sent = [] ∧ acked = []
  | .replaying rest => sent ++ rest.map replayItem = replayed ∧ acked = []
  | .receiving | .appending _ => ∃ n, sent = replayed ++ n ∧ n.Sublist acked
  | .sending item => ∃ n before, sent = replayed ++ n ∧ acked = before ++ [item] ∧ n.Sublist before
  | .stopped => Sent replayed acked sent

theorem Fed.sent {replayed acked sent : List QueueItem} {l : Listener}
    (h : Fed replayed acked sent l) : Sent replayed acked sent := by
  cases l with
  | spawned replay =>
      obtain ⟨-, rfl, rfl⟩ := h
      exact ⟨[], [], rfl, List.nil_prefix, List.nil_sublist _, by simp⟩
  | replaying rest =>
      obtain ⟨rfl, rfl⟩ := h
      exact ⟨sent, [], by simp, List.prefix_append _ _, List.nil_sublist _, by simp⟩
  | receiving =>
      obtain ⟨n, rfl, hn⟩ := h
      exact ⟨replayed, n, rfl, List.prefix_rfl, hn, fun _ => rfl⟩
  | appending adif =>
      obtain ⟨n, rfl, hn⟩ := h
      exact ⟨replayed, n, rfl, List.prefix_rfl, hn, fun _ => rfl⟩
  | sending item =>
      obtain ⟨n, before, rfl, rfl, hn⟩ := h
      exact ⟨replayed, n, rfl, List.prefix_rfl, hn.trans (List.sublist_append_left _ _),
        fun _ => rfl⟩
  | stopped => exact h

/-- Nothing has been sent on the shutdown channel, or `true` has. -/
def Quiet (p : Proc) : Prop :=
  p.shutdown.value = false → p.shutdown.version = 0 ∧ p.listenerSeen = 0

/-- A notification is then one to stop. -/
theorem Quiet.observed {p : Proc} {ok : Bool} {seen : Nat} (h : Quiet p)
    (hc : p.shutdown.changed p.listenerSeen = some (ok, seen)) :
    shutdownObserved ok p.shutdown = true := by
  cases ok with
  | false => rfl
  | true =>
      cases hv : p.shutdown.value with
      | true => simp [shutdownObserved, hv]
      | false =>
          obtain ⟨hversion, hseen⟩ := h hv
          exact absurd (hversion.trans hseen.symm) ((Watch.changed_spec hc).2.2 rfl)

variable {J : SerdeJson} {W : WavelogJson}

/-- `shutdown` is only ever set to `true`. -/
def Act.SetsTrue : Act → Prop
  | .shutdown value => value = true
  | _ => True

theorem Quiet.step {disk disk' : Disk} {p p' : Proc} {a : Act}
    (h : Step J W ⟨disk, some p⟩ a ⟨disk', some p'⟩) (ha : a.SetsTrue) (hq : Quiet p) :
    Quiet p' := by
  cases h with
  | shutdown value => exact fun hv => absurd (ha.symm.trans hv) nofun
  | listenerStarts hl hs => exact fun _ => ⟨(hq hs).1, (hq hs).1⟩
  | replayNotified hl hc =>
      exact fun hv => ⟨(hq hv).1, (Watch.changed_spec hc).1.trans (hq hv).1⟩
  | listenerNotified hl hc =>
      exact fun hv => ⟨(hq hv).1, (Watch.changed_spec hc).1.trans (hq hv).1⟩
  | workerNotified hw hc => split <;> exact hq
  | pushNotified hw hc => split <;> exact hq
  | _ => exact hq

/-- **The listener sends what was replayed, then what it has persisted**, each in order. -/
theorem Fed.step {disk disk' : Disk} {p p' : Proc} {a : Act}
    (h : Step J W ⟨disk, some p⟩ a ⟨disk', some p'⟩) (hq : Quiet p) {replayed : List QueueItem}
    {cur : List Act} (hf : Fed replayed (ackedItems cur) (sentItems cur) p.listener) :
    Fed replayed (ackedItems (cur ++ [a])) (sentItems (cur ++ [a])) p'.listener := by
  cases h with
  | listenerReturns hl hs => simpa [Fed] using hf.sent
  | listenerStarts hl hs =>
      rw [hl] at hf
      obtain ⟨rfl, hsent, hacked⟩ := hf
      simp [Fed, hsent, hacked]
  | replaySent hl hw hroom =>
      rw [hl] at hf
      obtain ⟨rfl, hacked⟩ := hf
      simp [Fed, hacked]
  | replayClosed hl hw => simpa [Fed] using hf.sent
  | replayNotified hl hc =>
      rw [if_pos (hq.observed hc)]
      simpa [Fed] using hf.sent
  | replayDone hl =>
      rw [hl] at hf
      obtain ⟨rfl, hacked⟩ := hf
      simp [Fed, hacked]
  | recvFailed hl => simpa using hf
  | ignored d hl hd => simpa using hf
  | received hl hd =>
      rw [hl] at hf
      simpa [Fed] using hf
  | @appended _ _ _ adif io inner' res hl h =>
      rw [hl] at hf
      obtain ⟨n, hsent, hn⟩ := hf
      cases res with
      | error e => exact ⟨n, by simpa using hsent, by simpa using hn⟩
      | ok seq =>
          exact ⟨n, ackedItems cur, by simpa using hsent,
            by simp [newEntry], hn⟩
  | @trySent _ _ item hl hw hroom =>
      rw [hl] at hf
      obtain ⟨n, before, hsent, hacked, hn⟩ := hf
      refine ⟨n ++ [item], by simp [hsent], ?_⟩
      simpa [hacked] using hn
  | tryFull hl hw hfull =>
      rw [hl] at hf
      obtain ⟨n, before, hsent, hacked, hn⟩ := hf
      refine ⟨n, by simpa using hsent, ?_⟩
      simpa [hacked] using hn.trans (List.sublist_append_left _ _)
  | tryClosed hl hw => simpa [Fed] using hf.sent
  | listenerNotified hl hc =>
      rw [if_pos (hq.observed hc)]
      simpa [Fed] using hf.sent
  | workerNotified hw hc => split <;> simpa using hf
  | pushNotified hw hc => split <;> simpa using hf
  | _ => simpa using hf

/-! ### The worker -/

/-- What the worker has taken, and what is left in the channel. -/
structure Drawn (cur : List Act) (p : Proc) : Prop where
  taken : takenItems cur <+: sentItems cur
  chan : p.worker ≠ .stopped → sentItems cur = takenItems cur ++ p.chan

theorem Drawn.step {disk disk' : Disk} {p p' : Proc} {a : Act}
    (h : Step J W ⟨disk, some p⟩ a ⟨disk', some p'⟩) {cur : List Act} (hd : Drawn cur p) :
    Drawn (cur ++ [a]) p' := by
  obtain ⟨htaken, hchan⟩ := hd
  cases h with
  | replaySent hl hw hroom =>
      refine ⟨?_, fun _ => by simp [hchan hw]⟩
      simpa using htaken.trans (List.prefix_append _ _)
  | trySent hl hw hroom =>
      refine ⟨?_, fun _ => by simp [hchan hw]⟩
      simpa using htaken.trans (List.prefix_append _ _)
  | taken hw hc =>
      have hsent := hchan (by rw [hw]; nofun)
      rw [hc] at hsent
      exact ⟨by simp [hsent],
        fun _ => by simp [hsent]⟩
  | workerReturns hw hs => exact ⟨by simpa using htaken, by simp⟩
  | chanEnded hw hc hl => exact ⟨by simpa using htaken, by simp⟩
  | workerNotified hw hc =>
      refine ⟨by simpa using htaken, ?_⟩
      split
      · simp
      · simpa using hchan
  | pushNotified hw hc =>
      refine ⟨by simpa using htaken, ?_⟩
      split
      · simp
      · simpa using hchan (by rw [hw]; nofun)
  | workerStarts hw hs =>
      exact ⟨by simpa using htaken,
        fun _ => by simpa using hchan (by rw [hw]; nofun)⟩
  | posted hw hres =>
      exact ⟨by simpa using htaken,
        fun _ => by simpa using hchan (by rw [hw]; nofun)⟩
  | finished hw hsum =>
      exact ⟨by simpa using htaken,
        fun _ => by simpa using hchan (by rw [hw]; nofun)⟩
  | removed hw h =>
      exact ⟨by simpa using htaken,
        fun _ => by simpa using hchan (by rw [hw]; nofun)⟩
  | _ =>
      exact ⟨by simpa using htaken,
        by simpa using hchan⟩

/-- What is known of the pushes by where the worker is. -/
def Judged (cur : List Act) : Worker → Prop
  | .pushing item => (postedItems cur ++ [item]).Sublist (takenItems cur)
  | .finishing item res => ∃ station attempts, .posted item station attempts res ∈ cur
  | .removing seq => PostSettled seq cur
  | _ => True

/-- The pushes, and where the worker is. -/
structure Worked (cur : List Act) (worker : Worker) : Prop where
  posted : (postedItems cur).Sublist (takenItems cur)
  judged : Judged cur worker

/-- An act of another task changes none of it. -/
theorem Worked.snoc {cur : List Act} {worker : Worker} (h : Worked cur worker) {a : Act}
    (ht : a.takenItem = none) (hp : a.postedItem = none) : Worked (cur ++ [a]) worker := by
  have htaken : takenItems (cur ++ [a]) = takenItems cur := by
    rw [takenItems_snoc, ht, Option.toList_none, List.append_nil]
  have hposted : postedItems (cur ++ [a]) = postedItems cur := by
    rw [postedItems_snoc, hp, Option.toList_none, List.append_nil]
  refine ⟨by rw [htaken, hposted]; exact h.posted, ?_⟩
  cases worker with
  | pushing item =>
      change (postedItems (cur ++ [a]) ++ [item]).Sublist (takenItems (cur ++ [a]))
      rw [htaken, hposted]
      exact h.judged
  | finishing item res =>
      obtain ⟨station, attempts, hm⟩ := h.judged
      exact ⟨station, attempts, List.mem_append_left _ hm⟩
  | removing seq => exact PostSettled.snoc h.judged a
  | _ => trivial

/-- Only a settled push leads to a removal, of its own item. -/
theorem handlePostOutcome_removing {res : Except WavelogError Unit} {item : QueueItem}
    {seq : UInt64} (h : handlePostOutcome res item = .removing seq) :
    item.seq = some seq ∧ Settles res := by
  unfold handlePostOutcome at h
  split at h
  · split at h
    · rename_i hseq
      cases h
      exact ⟨hseq, trivial⟩
    · cases h
  · split at h
    · rename_i hseq
      cases h
      exact ⟨hseq, trivial⟩
    · cases h
  · cases h

/-- It leads nowhere else, but back to the channel. -/
theorem handlePostOutcome_cases (res : Except WavelogError Unit) (item : QueueItem) :
    handlePostOutcome res item = .idle ∨ ∃ seq, handlePostOutcome res item = .removing seq := by
  unfold handlePostOutcome
  split
  · split
    · exact .inr ⟨_, rfl⟩
    · exact .inl rfl
  · split
    · exact .inr ⟨_, rfl⟩
    · exact .inl rfl
  · exact .inl rfl

theorem Worked.step {disk disk' : Disk} {p p' : Proc} {a : Act}
    (h : Step J W ⟨disk, some p⟩ a ⟨disk', some p'⟩) {cur : List Act}
    (hk : Worked cur p.worker) : Worked (cur ++ [a]) p'.worker := by
  have hposted := hk.posted
  cases h with
  | workerReturns hw hs => exact ⟨by simpa using hposted, trivial⟩
  | workerStarts hw hs => exact ⟨by simpa using hposted, trivial⟩
  | @taken _ _ item rest hw hc =>
      refine ⟨?_, by simpa [Judged] using hposted⟩
      simpa using hposted.trans (List.sublist_append_left _ _)
  | chanEnded hw hc hl => exact ⟨by simpa using hposted, trivial⟩
  | workerNotified hw hc =>
      refine ⟨by simpa using hposted, ?_⟩
      split
      · trivial
      · exact hw ▸ trivial
  | @posted _ _ item station attempts res hw hres =>
      have hpush := hw ▸ hk.judged
      exact ⟨by simpa [Judged] using hpush, station, attempts, by simp⟩
  | pushNotified hw hc =>
      refine ⟨by simpa using hposted, ?_⟩
      split <;> trivial
  | @finished _ _ item res _ hw hsum =>
      refine ⟨by simpa using hposted, ?_⟩
      obtain ⟨station, attempts, hm⟩ := hw ▸ hk.judged
      rcases handlePostOutcome_cases res item with hidle | ⟨seq, hseq⟩
      · rw [hidle]
        trivial
      · obtain ⟨hitem, hres⟩ := handlePostOutcome_removing hseq
        rw [hseq]
        exact ⟨item, station, attempts, res, List.mem_append_left _ hm, hitem, hres⟩
  | removed hw h => exact ⟨by simpa using hposted, trivial⟩
  | _ => exact hk.snoc rfl rfl

/-! ### The seqs -/

/-- The items have increasing seqs, all below `next`. -/
def Numbered (items : List QueueItem) (next : UInt64) : Prop :=
  ∃ seqs : List UInt64, items.map (·.seq) = seqs.map some ∧ seqs.Pairwise (· < ·) ∧
    ∀ s ∈ seqs, s < next

theorem Numbered.mono {items : List QueueItem} {next next' : UInt64} (h : Numbered items next)
    (hle : next ≤ next') : Numbered items next' := by
  obtain ⟨seqs, hmap, hsorted, hlt⟩ := h
  exact ⟨seqs, hmap, hsorted, fun s hs => UInt64.lt_of_lt_of_le (hlt s hs) hle⟩

theorem Numbered.snoc {items : List QueueItem} {next : UInt64} (h : Numbered items next)
    (hnext : next < maxSeq) (adif : Text) :
    Numbered (items ++ [{ seq := some next, adif }]) (next + 1) := by
  obtain ⟨seqs, hmap, hsorted, hlt⟩ := h
  refine ⟨seqs ++ [next], by simp [hmap], ?_, fun s hs => ?_⟩
  · rw [List.pairwise_append]
    exact ⟨hsorted, List.pairwise_singleton _ _,
      fun x hx y hy => List.mem_singleton.mp hy ▸ hlt x hx⟩
  · rcases List.mem_append.mp hs with hs | hs
    · exact lt_add_one (UInt64.le_of_lt (hlt s hs)) hnext
    · rw [List.mem_singleton.mp hs]
      exact lt_add_one (UInt64.le_refl _) hnext

/-- Some of them, in order, are increasing too. -/
theorem Numbered.increasing {items items' : List QueueItem} {next : UInt64}
    (h : Numbered items next) (hs : items'.Sublist items) : Increasing items' := by
  obtain ⟨seqs, hmap, hsorted, -⟩ := h
  have hsub := hs.map (·.seq)
  rw [hmap] at hsub
  obtain ⟨seqs', hsub', heq⟩ := List.sublist_map_iff.mp hsub
  exact ⟨seqs', heq, hsorted.sublist hsub'⟩

/-- The replay of a queue in order is numbered. -/
theorem numbered_replay {inner : Inner} (hs : Fifo.Sorted (·.seq) inner.entries)
    (hlt : ∀ e ∈ inner.entries, e.seq < inner.nextSeq) :
    Numbered ((inner.entries.map Entry.pair).map replayItem) inner.nextSeq := by
  refine ⟨inner.entries.map (·.seq), by simp [Function.comp_def, replayItem], ?_, ?_⟩
  · rwa [List.pairwise_map]
  · intro s hs
    obtain ⟨e, he, rfl⟩ := List.mem_map.mp hs
    exact hlt e he

theorem Numbered.step {disk disk' : Disk} {p p' : Proc} {a : Act}
    (h : Step J W ⟨disk, some p⟩ a ⟨disk', some p'⟩) {replayed : List QueueItem} {cur : List Act}
    (hlast : a.isAppend = true → p.inner.nextSeq < maxSeq)
    (hn : Numbered (replayed ++ ackedItems cur) p.inner.nextSeq) :
    Numbered (replayed ++ ackedItems (cur ++ [a])) p'.inner.nextSeq := by
  cases h with
  | @appended _ _ _ adif io inner' res hl h =>
      replace hlast := hlast rfl
      obtain ⟨rfl, hseq⟩ := append_memory h
      cases res with
      | error e =>
          simpa using hn.mono (UInt64.le_of_lt (lt_add_one (UInt64.le_refl _) hlast))
      | ok seq =>
          obtain rfl := hseq seq rfl
          simpa [newEntry] using hn.snoc hlast adif
  | removed hw h =>
      obtain rfl := remove_memory h
      simpa [dropped] using hn
  | workerNotified hw hc => split <;> simpa using hn
  | pushNotified hw hc => split <;> simpa using hn
  | _ => simpa using hn

/-! ### A process -/

/-- Every removal so far came after the push of its item was settled. -/
def SettledFirst (cur : List Act) : Prop :=
  ∀ pre seq io res post, cur = pre ++ .removed seq io res :: post → PostSettled seq pre

theorem SettledFirst.snoc {cur : List Act} {a : Act} (h : SettledFirst cur)
    (ha : ∀ seq io res, a = .removed seq io res → PostSettled seq cur) :
    SettledFirst (cur ++ [a]) := by
  intro pre seq io res post heq
  rcases snoc_eq_append_cons heq with ⟨rfl, rfl, rfl⟩ | ⟨post', rfl, rfl⟩
  · exact ha seq io res rfl
  · exact h pre seq io res post' rfl

/-- What a process is up to, after the acts `cur`. -/
structure Handing (replay : Replay) (cur : List Act) (p : Proc) : Prop where
  quiet : Quiet p
  fed : Fed (replay.map replayItem) (ackedItems cur) (sentItems cur) p.listener
  drawn : Drawn cur p
  worked : Worked cur p.worker
  numbered : Numbered (replay.map replayItem ++ ackedItems cur) p.inner.nextSeq

/-- So far it has handed its items over in order. -/
theorem Handing.handoff {replay : Replay} {cur : List Act} {p : Proc} (h : Handing replay cur p)
    (hs : SettledFirst cur) : Handoff replay cur := by
  obtain ⟨r, n, htaken, hr, hn, hall⟩ := h.fed.sent.of_prefix h.drawn.taken
  refine ⟨h.numbered.increasing ?_, ⟨r, n, htaken, hr, hn, hall⟩, h.worked.posted, hs⟩
  rw [htaken]
  exact hr.sublist.append hn

theorem Handing.step {disk disk' : Disk} {p p' : Proc} {a : Act}
    (h : Step J W ⟨disk, some p⟩ a ⟨disk', some p'⟩) (ha : a.SetsTrue)
    (hlast : a.isAppend = true → p.inner.nextSeq < maxSeq)
    {replay : Replay} {cur : List Act} (hh : Handing replay cur p) :
    Handing replay (cur ++ [a]) p' where
  quiet := hh.quiet.step h ha
  fed := hh.fed.step h hh.quiet
  drawn := hh.drawn.step h
  worked := hh.worked.step h
  numbered := Numbered.step h hlast hh.numbered

/-- An act that hands nothing over. -/
theorem Handoff.snoc {replay : Replay} {cur : List Act} {a : Act} (h : Handoff replay cur)
    (hacked : a.ackedItem = none) (ht : a.takenItem = none) (hp : a.postedItem = none)
    (hs : SettledFirst (cur ++ [a])) : Handoff replay (cur ++ [a]) := by
  have hacked' : ackedItems (cur ++ [a]) = ackedItems cur := by
    rw [ackedItems_snoc, hacked, Option.toList_none, List.append_nil]
  have htaken : takenItems (cur ++ [a]) = takenItems cur := by
    rw [takenItems_snoc, ht, Option.toList_none, List.append_nil]
  have hposted : postedItems (cur ++ [a]) = postedItems cur := by
    rw [postedItems_snoc, hp, Option.toList_none, List.append_nil]
  refine ⟨?_, ?_, ?_, hs⟩
  · rw [htaken]
    exact h.increasing
  · rw [htaken, hacked']
    exact h.replay_first
  · rw [htaken, hposted]
    exact h.posted_once

/-- What a run keeps from the start of a process on, until the next start. -/
theorem Handoff.step {replay : Replay} {cur : List Act} {w w' : World} {a : Act}
    (h : Step J W w a w') (hopen : ∀ io replay, a ≠ .opened io replay) (ha : a.SetsTrue)
    (hlast : a.isAppend = true → ∀ p, w.proc = some p → p.inner.nextSeq < maxSeq)
    (hh : Handoff replay cur) (hp : ∀ p, w.proc = some p → Handing replay cur p) :
    Handoff replay (cur ++ [a]) ∧ ∀ p, w'.proc = some p → Handing replay (cur ++ [a]) p := by
  obtain ⟨disk, _ | p⟩ := w
  · -- no process: it may fail to start
    cases h with
    | opened h => exact absurd rfl (hopen _ _)
    | openFailed h =>
        exact ⟨hh.snoc rfl rfl rfl (SettledFirst.snoc hh.settled_first nofun),
          fun _ hp => (by cases hp)⟩
  · have hh' := hp p rfl
    have hsettled : SettledFirst (cur ++ [a]) := by
      refine SettledFirst.snoc hh.settled_first fun seq io res e => ?_
      subst e
      cases h with
      | removed hw h =>
          have hjudged := hh'.worked.judged
          rwa [hw] at hjudged
    obtain ⟨disk', _ | p'⟩ := w'
    · -- the process has ended
      refine ⟨?_, fun _ hp => (by cases hp)⟩
      cases h <;> exact hh.snoc rfl rfl rfl hsettled
    · have hh'' := hh'.step h ha fun hlen => hlast hlen p rfl
      exact ⟨hh''.handoff hsettled, fun _ e => Option.some.inj e ▸ hh''⟩

/-- A process that has just started. -/
theorem Handing.start {inner : Inner} {replay : Replay}
    (hreplay : replay = inner.entries.map Entry.pair)
    (hs : Fifo.Sorted (·.seq) inner.entries) (hlt : ∀ e ∈ inner.entries, e.seq < inner.nextSeq) :
    Handing replay [] (.spawn inner replay) where
  quiet _ := ⟨rfl, rfl⟩
  fed := ⟨rfl, rfl, rfl⟩
  drawn := ⟨List.nil_prefix, fun _ => rfl⟩
  worked := ⟨List.Sublist.refl _, trivial⟩
  numbered := by
    change Numbered (replay.map replayItem ++ []) inner.nextSeq
    rw [List.append_nil, hreplay]
    exact numbered_replay hs hlt

/-- **A process hands its items over in order.**  From any start on a queue file that earlier
processes have left, and through any order of its tasks, as long as `shutdown` is only set to
`true`; it replays the entries of that file. -/
theorem handoff_in_order (hJ : J.Strict) {tr cur : List Act} {io : OpenIo} {replay : Replay}
    {w : World} (h : Run (Step J W) Always World.fresh (tr ++ .opened io replay :: cur) w)
    (hone : ∀ io' replay', .opened io' replay' ∉ cur) (hshut : ∀ value, .shutdown value ∈ cur →
      value = true) (hn : qsos (tr ++ .opened io replay :: cur) < UInt64.size - 1) :
    Handoff replay cur ∧ ∃ w₀, Run (Step J W) Always World.fresh tr w₀ ∧
      Run (Step J W) Always w₀ (.opened io replay :: cur) w ∧
        replay = (w₀.disk.stored J).map Entry.pair := by
  obtain ⟨m, m', h₁, -, hstep, h₂⟩ := h.step_at
  have hopened := h₁.extend hstep trivial
  have hfile : replay = (m.disk.stored J).map Entry.pair := by
    cases hstep with
    | opened ho => exact (open_stored ho).2
  -- the process starts on a queue in order
  have hstart : ∃ disk inner, m' = ⟨disk, some (.spawn inner replay)⟩ ∧
      Handing replay [] (.spawn inner replay) := by
    obtain ⟨sh, hsh, -⟩ := ordered hJ h₁ (by simp [qsos] at hn ⊢; omega)
    obtain ⟨sh', -, ho⟩ := ordered hJ hopened (by simp [qsos, Act.isAppend] at hn ⊢; omega)
    cases hstep with
    | @opened _ disk' _ inner _ ho' =>
        obtain ⟨sh'', -, hres⟩ := open_spec hJ hsh ho'
        obtain ⟨-, rfl, hreplay⟩ := hres _ _ rfl
        exact ⟨disk', _, rfl, .start hreplay (ho.memory _ rfl) (ho.memory_lt _ rfl)⟩
  obtain ⟨disk, inner, rfl, hstart⟩ := hstart
  have hinv : Handoff replay cur ∧ ∀ p, w.proc = some p → Handing replay cur p := by
    refine h₂.invariant (I := fun cur w => (∀ io' replay', .opened io' replay' ∉ cur) →
      (∀ value, .shutdown value ∈ cur → value = true) →
      qsos (tr ++ .opened io replay :: cur) < UInt64.size - 1 →
      Handoff replay cur ∧ ∀ p, w.proc = some p → Handing replay cur p) ?_ ?_ hone hshut hn
    · exact fun _ _ _ => ⟨hstart.handoff (fun pre _ _ _ _ e => by simp at e),
        fun _ e => Option.some.inj e ▸ hstart⟩
    · rintro cur s a s' hrun ih - hs hone hshut hn
      rw [← List.cons_append, ← List.append_assoc, qsos_snoc] at hn
      obtain ⟨hh, hp⟩ := ih (fun io' replay' hm => hone io' replay' (List.mem_append_left _ hm))
        (fun value hm => hshut value (List.mem_append_left _ hm)) (by omega)
      refine hh.step hs (fun io' replay' e => hone io' replay' (by simp [e])) ?_ ?_ hp
      · cases a with
        | shutdown value => exact hshut value (by simp)
        | _ => trivial
      · intro happ p hpr
        rw [if_pos happ] at hn
        have hrun := hopened.trans hrun
        rw [List.append_assoc] at hrun
        exact nextSeq_lt hJ hrun hn hpr
  exact ⟨hinv.1, m, h₁, .cons trivial hstep h₂, hfile⟩

/-! ### An outage -/

/-- What `serde_json` makes of the body of a created QSO. -/
def createdJson : WavelogJson where
  qsoResponse body :=
    if body = "\x7b\"status\":\"created\"\x7d".toList then
      some { status := some "created".toList, reason := none }
    else none
  stationInfo _ := none

def createdAnswer : Exchange where
  redirects := []
  last := .answered 201 (some "\x7b\"status\":\"created\"\x7d".toList)

/-- No response. -/
def unreachable : Exchange where
  redirects := []
  last := .failed

def adifA : Text := "<CALL:1>A".toList

/-- A Logged-ADIF message from `WSJT-X`. -/
def datagramA : Datagram where
  bytes := toBeBytes magic ++ toBeBytes 3 ++ toBeBytes msgTypeLoggedAdif ++
    toBeBytes 6 ++ utf8 "WSJT-X".toList ++ toBeBytes 9 ++ utf8 adifA
  len_le := by decide

theorem receive_datagramA : receive datagramA =
    pure (some (adifA, { callsign := some ['A'], mode := none, band := none })) := by
  have h : (receive datagramA).run = some (.ok (some (adifA, ⟨some ['A'], none, none⟩))) := by
    decide +kernel
  exact h

theorem pushOne_created :
    pushOne createdJson (.fixed ['1']) [createdAnswer] = some (.ok ()) := by decide +kernel

def adifB : Text := "<CALL:1>B".toList

def datagramB : Datagram where
  bytes := toBeBytes magic ++ toBeBytes 3 ++ toBeBytes msgTypeLoggedAdif ++
    toBeBytes 6 ++ utf8 "WSJT-X".toList ++ toBeBytes 9 ++ utf8 adifB
  len_le := by decide

theorem receive_datagramB : receive datagramB =
    pure (some (adifB, { callsign := some ['B'], mode := none, band := none })) := by
  have h : (receive datagramB).run = some (.ok (some (adifB, ⟨some ['B'], none, none⟩))) := by
    decide +kernel
  exact h

def qsoA : Entry := { seq := 1, adif := adifA, receivedAt := 0 }

/-- The first process receives a QSO, fails to push it, and is killed. -/
def outageActs : List Act :=
  [.opened {} [], .listener, .listener, .worker, .received datagramA adifA,
    .appended qsoA { now := 0 } [] (.ok 1), .sent (replayItem qsoA.pair),
    .taken (replayItem qsoA.pair),
    .posted (replayItem qsoA.pair) (.fixed ['1']) (.replicate 3 unreachable) (.error .http),
    .worker, .killed]

/-- The next one replays it, pushes it and removes it; then it receives another. -/
def replayActs : List Act :=
  [.listener, .sent (replayItem qsoA.pair), .listener, .worker, .taken (replayItem qsoA.pair),
    .posted (replayItem qsoA.pair) (.fixed ['1']) [createdAnswer] (.ok ()), .worker,
    .removed 1 .ok (.ok ())] ++
      qsoActs datagramB adifB 2 (.fixed ['1']) [createdAnswer] (.ok ())

theorem pushOne_unreachable : pushOne createdJson (.fixed ['1']) (.replicate 3 unreachable) =
    some (.error .http) := by decide +kernel

theorem outage_run : ∃ disk, disk.Lists json [qsoA] ∧
    Run (Step json createdJson) Always World.fresh outageActs ⟨disk, none⟩ := by
  have hpos : ([] : List Entry).length < maxQueueLen := maxQueueLen_pos
  have hlists : (⟨none, []⟩ : Disk).Lists json [] := .inl ⟨rfl, rfl⟩
  obtain ⟨disk, happ, hdisk⟩ := append_below 1 adifA 0 hpos hlists
  have hstart : Run (Step json createdJson) Always World.fresh _ _ :=
    (start_run rfl).mono fun _ _ _ => trivial
  refine ⟨disk, hdisk, hstart.trans ?_⟩
  refine .cons trivial (.received rfl receive_datagramA) ?_
  refine .cons trivial (.append_of rfl happ rfl (Fifo.dropped_of_lt hpos)) ?_
  refine .cons trivial (.trySent rfl nofun (by decide)) ?_
  refine .cons trivial (.taken rfl rfl) ?_
  refine .cons trivial (.posted rfl pushOne_unreachable) ?_
  refine .cons trivial (.finished rfl (summarizeAdif_of_receive receive_datagramA)) ?_
  exact .cons trivial .killed .nil

theorem replay_run {disk : Disk} (hdisk : disk.Lists json [qsoA]) :
    ∃ w, Run (Step json createdJson) Always ⟨disk, none⟩
      (.opened {} [qsoA.pair] :: replayActs) w := by
  have hopen : QsoQueue.open json disk {} = _ := open_of_lists json_strict.toLawful rfl hdisk
  obtain ⟨disk₁, hrem, hdisk₁⟩ := remove_of_lists ⟨_, 2⟩ 1 hdisk
  obtain ⟨disk₂, -, hqso⟩ := qso_run receive_datagramB pushOne_created 2 rfl hdisk₁
  refine ⟨⟨disk₂, some (.waiting ⟨[], 3⟩)⟩, .cons trivial (.opened hopen) ?_⟩
  refine .cons trivial (.listenerStarts rfl rfl) ?_
  refine .cons trivial (.replaySent rfl nofun (by decide)) ?_
  refine .cons trivial (.replayDone rfl) ?_
  refine .cons trivial (.workerStarts rfl rfl) ?_
  refine .cons trivial (.taken rfl rfl) ?_
  refine .cons trivial (.posted rfl pushOne_created) ?_
  refine .cons trivial (.finished rfl (summarizeAdif_of_receive receive_datagramA)) ?_
  exact .cons trivial (.removed rfl hrem) (hqso.mono fun _ _ _ => trivial)

/-- A QSO that an outage left in the file is replayed, pushed and removed, and then another. -/
theorem handoff_after_outage : Handoff [qsoA.pair] replayActs := by
  obtain ⟨disk, hdisk, hrun⟩ := outage_run
  obtain ⟨w, hrun'⟩ := replay_run hdisk
  refine (handoff_in_order json_strict (hrun.trans hrun') ?_ ?_ ?_).1
  · simp [replayActs, qsoActs]
  · simp [replayActs, qsoActs]
  · decide

end WavelogRelay.Wsjtx
