import WavelogRelay.Wsjtx.Conservation
import WavelogRelay.Wsjtx.Unasked

/-!
# WSJT-X — what is replayed and received is pushed

A process that nothing asks to stop: its two tasks step, and the shutdown channel stays as it is.
A reception brings work; a receive that fails and a datagram that is ignored are no step.

* `Turn`: all that the tasks can do then; `Working.turn`.
* `Turn.work_step`: a turn other than a reception leaves less to do.
* `exists_turn`: until both tasks wait for WSJT-X, one of them has a turn, whatever Wavelog does.
* `delivery`: so they come to wait; then each QSO has been pushed, or shed by a full channel, and
  what the queue still holds, in memory or in its file, has a reason to be there.
-/

namespace WavelogRelay.Wsjtx
open Library Queue Wavelog

/-! ### Turns -/

/-- A step of the listener or the worker in which something is done. -/
structure Working (J : SerdeJson) (W : WavelogJson) (w : World) (a : Act) (w' : World) : Prop where
  step : Step J W w a w'
  update : a.isUpdate = false
  same : SameProcess a
  runs : w'.proc.isSome
  changes : w' ≠ w

/-- A datagram brings a QSO. -/
def Act.arrives : Act → Bool
  | .received _ _ => true
  | _ => false

/-- Nothing has been sent on the shutdown channel, and both tasks run. -/
structure Proc.Steady (p : Proc) : Prop where
  shutdown : p.shutdown = .new false
  listenerSeen : p.listenerSeen = 0
  workerSeen : p.workerSeen = 0
  listener : p.listener ≠ .stopped
  worker : p.worker ≠ .stopped

/-- What the tasks of a steady process can do. -/
inductive Turn (J : SerdeJson) (W : WavelogJson) (disk : Disk) (p : Proc) :
    Act → Disk → Proc → Prop where
  -- the listener
  | listenerStarts {replay : Replay} (hl : p.listener = .spawned replay) :
      Turn J W disk p .listener disk { p with listener := .replaying replay }
  | replaySent {x : UInt64 × Text} {rest : Replay} (hl : p.listener = .replaying (x :: rest))
      (hroom : p.chan.length < queueCapacity) :
      Turn J W disk p (.sent (replayItem x)) disk
        { p with listener := .replaying rest, chan := p.chan ++ [replayItem x] }
  | replayDone (hl : p.listener = .replaying []) :
      Turn J W disk p .listener disk { p with listener := .receiving }
  | received {d : Datagram} {adif : Text} {summary : AdifSummary} (hl : p.listener = .receiving)
      (hd : receive d = pure (some (adif, summary))) :
      Turn J W disk p (.received d adif) disk { p with listener := .appending adif }
  | appended {disk' : Disk} {adif : Text} {io : AppendIo} {inner' : Inner}
      {res : Except QsoQueueError UInt64} (hl : p.listener = .appending adif)
      (h : QsoQueue.append J p.inner disk adif io = (res, inner', disk')) :
      Turn J W disk p (.appended (newEntry p.inner adif io.now) io (evicted p.inner) res) disk'
        { p with inner := inner', listener := afterAppend adif res }
  | trySent {item : QueueItem} (hl : p.listener = .sending item)
      (hroom : p.chan.length < queueCapacity) :
      Turn J W disk p (.sent item) disk
        { p with listener := .receiving, chan := p.chan ++ [item] }
  | tryFull {item : QueueItem} (hl : p.listener = .sending item)
      (hfull : queueCapacity ≤ p.chan.length) :
      Turn J W disk p (.overflowed item) disk { p with listener := .receiving }
  -- the worker
  | workerStarts (hw : p.worker = .spawned) :
      Turn J W disk p .worker disk { p with worker := .idle }
  | taken {item : QueueItem} {rest : List QueueItem} (hw : p.worker = .idle)
      (hchan : p.chan = item :: rest) :
      Turn J W disk p (.taken item) disk { p with worker := .pushing item, chan := rest }
  | posted {item : QueueItem} {station : Resolution} {attempts : List Exchange}
      {res : Except WavelogError Unit} (hw : p.worker = .pushing item)
      (hres : pushOne W station attempts = some res) :
      Turn J W disk p (.posted item station attempts res) disk
        { p with worker := .finishing item res }
  | finished {item : QueueItem} {res : Except WavelogError Unit} {summary : AdifSummary}
      (hw : p.worker = .finishing item res) (hsum : summarizeAdif item.adif = some summary) :
      Turn J W disk p .worker disk { p with worker := handlePostOutcome res item }
  | removed {disk' : Disk} {seq : UInt64} {io : RewriteIo} {inner' : Inner}
      {res : Except QsoQueueError Unit} (hw : p.worker = .removing seq)
      (h : QsoQueue.remove J p.inner disk seq io = (res, inner', disk')) :
      Turn J W disk p (.removed seq io res) disk' { p with inner := inner', worker := .idle }

variable {J : SerdeJson} {W : WavelogJson} {disk disk' : Disk} {p p' : Proc} {a : Act}

namespace Proc.Steady

theorem value (h : p.Steady) : p.shutdown.value = false := by
  rw [h.shutdown]
  rfl

theorem not_notified (h : p.Steady) {ok : Bool} {seen : Nat} :
    p.shutdown.changed p.listenerSeen ≠ some (ok, seen) ∧
      p.shutdown.changed p.workerSeen ≠ some (ok, seen) := by
  rw [h.shutdown, h.listenerSeen, h.workerSeen]
  exact ⟨fun hc => (by cases hc), fun hc => (by cases hc)⟩

end Proc.Steady

/-- **The turns are all that a steady process does.** -/
theorem Working.turn (h : Working J W ⟨disk, some p⟩ a ⟨disk', some p'⟩) (hp : p.Steady) :
    Turn J W disk p a disk' p' := by
  obtain ⟨hs, hupd, -, -, hne⟩ := h
  have hversion : p.shutdown.version = 0 := by rw [hp.shutdown]; rfl
  cases hs with
  | shutdown | senderDropped => cases hupd
  | recvFailed | ignored => exact absurd rfl hne
  | listenerReturns hl hs | workerReturns hw hs => cases hs.symm.trans hp.value
  | replayNotified hl hc | listenerNotified hl hc => exact absurd hc hp.not_notified.1
  | workerNotified hw hc | pushNotified hw hc => exact absurd hc hp.not_notified.2
  | replayClosed hl hw | tryClosed hl hw => exact absurd hw hp.worker
  | chanEnded hw hchan hl => exact absurd hl hp.listener
  | listenerStarts hl hs =>
      rw [hversion, ← hp.listenerSeen]
      exact .listenerStarts hl
  | workerStarts hw hs =>
      rw [hversion, ← hp.workerSeen]
      exact .workerStarts hw
  | replaySent hl hw hroom => exact .replaySent hl hroom
  | replayDone hl => exact .replayDone hl
  | received hl hd => exact .received hl hd
  | appended hl h => exact .appended hl h
  | trySent hl hw hroom => exact .trySent hl hroom
  | tryFull hl hw hfull => exact .tryFull hl hfull
  | taken hw hchan => exact .taken hw hchan
  | posted hw hres => exact .posted hw hres
  | finished hw hsum => exact .finished hw hsum
  | removed hw h => exact .removed hw h

theorem Turn.step (h : Turn J W disk p a disk' p') (hp : p.Steady) :
    Step J W ⟨disk, some p⟩ a ⟨disk', some p'⟩ := by
  have hversion : p.shutdown.version = 0 := by rw [hp.shutdown]; rfl
  cases h with
  | listenerStarts hl =>
      have hs : Step J W ⟨disk, some p⟩ _ _ := .listenerStarts hl hp.value
      rwa [hversion, ← hp.listenerSeen] at hs
  | workerStarts hw =>
      have hs : Step J W ⟨disk, some p⟩ _ _ := .workerStarts hw hp.value
      rwa [hversion, ← hp.workerSeen] at hs
  | replaySent hl hroom => exact .replaySent hl hp.worker hroom
  | replayDone hl => exact .replayDone hl
  | received hl hd => exact .received hl hd
  | appended hl h => exact .appended hl h
  | trySent hl hroom => exact .trySent hl hp.worker hroom
  | tryFull hl hfull => exact .tryFull hl hp.worker hfull
  | taken hw hchan => exact .taken hw hchan
  | posted hw hres => exact .posted hw hres
  | finished hw hsum => exact .finished hw hsum
  | removed hw h => exact .removed hw h

theorem Proc.Steady.step (hp : p.Steady) (h : Turn J W disk p a disk' p') : p'.Steady := by
  obtain ⟨hs, hls, hws, hl, hw⟩ := hp
  cases h with
  | @appended _ adif _ _ res =>
      refine ⟨hs, hls, hws, ?_, hw⟩
      cases res <;> exact fun e => by cases e
  | @finished item res =>
      refine ⟨hs, hls, hws, hl, ?_⟩
      rcases handlePostOutcome_cases res item with h | ⟨seq, h⟩ <;> rw [h] <;>
        exact fun e => by cases e
  | listenerStarts | replaySent | replayDone | received | trySent | tryFull =>
      exact ⟨hs, hls, hws, fun e => (by cases e), hw⟩
  | workerStarts | taken | posted | removed => exact ⟨hs, hls, hws, hl, fun e => (by cases e)⟩

/-! ### What is left to do -/

/-- An item that is sent has five turns before it, four of them of the worker. -/
def Listener.work : Listener → Nat
  | .spawned replay => 5 * replay.length + 2
  | .replaying rest => 5 * rest.length + 1
  | .sending _ => 5
  | .appending _ => 6
  | .receiving | .stopped => 0

def Worker.work : Worker → Nat
  | .spawned | .removing _ => 1
  | .pushing _ => 3
  | .finishing _ _ => 2
  | .idle | .stopped => 0

def Proc.work (p : Proc) : Nat := p.listener.work + p.worker.work + 4 * p.chan.length

theorem work_afterAppend (adif : Text) (res : Except QsoQueueError UInt64) :
    (afterAppend adif res).work ≤ 5 := by
  cases res with
  | ok => exact Nat.le_refl _
  | error => exact Nat.zero_le _

theorem work_handlePostOutcome (res : Except WavelogError Unit) (item : QueueItem) :
    (handlePostOutcome res item).work ≤ 1 := by
  rcases handlePostOutcome_cases res item with h | ⟨seq, h⟩ <;> rw [h]
  · exact Nat.zero_le _
  · exact Nat.le_refl _

/-- **A turn leaves less to do**, unless it is a reception. -/
theorem Turn.work_step (h : Turn J W disk p a disk' p') :
    p'.work + 1 ≤ p.work + 7 * a.arrives.toNat := by
  unfold Proc.work
  cases h with
  | listenerStarts hl | replayDone hl | received hl | tryFull hl =>
      simp only [hl, Listener.work, Act.arrives, Bool.toNat_false, Bool.toNat_true, List.length_nil]
      omega
  | replaySent hl | trySent hl =>
      simp only [hl, Listener.work, List.length_append, List.length_cons, List.length_nil]
      omega
  | @appended _ adif _ _ res hl =>
      have hnew := work_afterAppend adif res
      have hold : p.listener.work = 6 := by rw [hl]; rfl
      simp only
      omega
  | @finished item res _ hw =>
      have hnew := work_handlePostOutcome res item
      have hold : p.worker.work = 2 := by rw [hw]; rfl
      simp only
      omega
  | taken hw hchan =>
      simp only [hw, hchan, Worker.work, List.length_cons]
      omega
  | workerStarts hw | posted hw | removed hw =>
      simp only [hw, Worker.work]
      omega

/-- The text is one whose fields can be looked up. -/
def Readable (adif : Text) : Prop := (summarizeAdif adif).isSome

/-- The texts in hand can be. -/
structure Proc.Readable (p : Proc) : Prop where
  items : ∀ item ∈ p.inFlight, Wsjtx.Readable item.adif
  pending : ∀ adif, p.listener = .appending adif → Wsjtx.Readable adif

theorem Proc.Readable.step (hr : p.Readable) (hp : p.Steady) (h : Turn J W disk p a disk' p') :
    p'.Readable := by
  refine ⟨fun item hi => ?_, fun adif hl' => ?_⟩
  · rcases inFlight_step (h.step hp) hi with hi | hack
    · exact hr.items item hi
    · cases h with
      | @appended _ adif _ _ res hl =>
          cases res with
          | ok =>
              cases hack
              exact hr.pending adif hl
          | error => cases hack
      | _ => cases hack
  · cases h with
    | received hl hd =>
        cases hl'
        rw [Wsjtx.Readable, summarizeAdif_of_receive hd]
        rfl
    | @appended _ _ _ _ res =>
        cases res <;> cases hl'
    | workerStarts | taken | posted | finished | removed => exact hr.pending adif hl'
    | _ => cases hl'

/-- Both tasks wait for WSJT-X. -/
def Proc.Resting (p : Proc) : Prop :=
  p.listener = .receiving ∧ p.worker = .idle ∧ p.chan = []

/-- No QSO arrives, and no POST gets an answer, for a station that is found, or not, as it says. -/
def Act.Alone (station : Resolution) : Act → Prop
  | .received _ _ => False
  | .posted _ used attempts _ => used = station ∧ ∀ x ∈ attempts, x = ⟨[], .failed⟩
  | _ => True

theorem Act.Alone.not_arrives {station : Resolution} (h : a.Alone station) : a.arrives = false := by
  cases a <;> first | rfl | cases h

/-- A push has an outcome, if only that of three requests that fail. -/
theorem exists_push {W : WavelogJson} {station : Resolution} (hstation : resolve W station ≠ none) :
    ∃ attempts res, pushOne W station attempts = some res ∧ ∀ x ∈ attempts, x = ⟨[], .failed⟩ := by
  have hlen : 3 ≤ (List.replicate 3 (⟨[], .failed⟩ : Exchange)).length := Nat.le_refl _
  obtain ⟨n, res, h⟩ := pushOne_total hstation hlen
  exact ⟨_, res, h, fun x hx => List.eq_of_mem_replicate (List.mem_of_mem_take hx)⟩

section Turns

variable {station : Resolution} (hstation : resolve W station ≠ none)

include hstation

/-- The worker has a turn, unless it waits on an empty channel. -/
theorem exists_worker_turn (hp : p.Steady) (hr : p.Readable)
    (hw : p.worker ≠ .idle ∨ p.chan ≠ []) :
    ∃ a disk' p', Turn J W disk p a disk' p' ∧ a.Alone station := by
  cases hworker : p.worker with
  | spawned => exact ⟨_, _, _, .workerStarts hworker, trivial⟩
  | idle =>
      obtain ⟨item, rest, hchan⟩ :=
        List.exists_cons_of_ne_nil (hw.resolve_left fun h => h hworker)
      exact ⟨_, _, _, .taken hworker hchan, trivial⟩
  | pushing item =>
      obtain ⟨attempts, res, hres, hfailed⟩ := exists_push hstation
      exact ⟨_, _, _, .posted hworker hres, rfl, hfailed⟩
  | finishing item res =>
      have hmem : item ∈ p.inFlight :=
        mem_inFlight.mpr (.inr (.inr (by simp [hworker, Worker.items])))
      obtain ⟨summary, hsum⟩ := Option.isSome_iff_exists.mp (hr.items item hmem)
      exact ⟨_, _, _, .finished hworker hsum, trivial⟩
  | removing seq =>
      have hrm : QsoQueue.remove J p.inner disk seq .ok = (_, _, _) := rfl
      exact ⟨_, _, _, .removed hworker hrm, trivial⟩
  | stopped => exact absurd hworker hp.worker

/-- **Until both wait, one of the tasks has a turn**: a listener at a full channel waits for the
worker, which then has one. -/
theorem exists_turn (hp : p.Steady) (hr : p.Readable) (hrest : ¬ p.Resting) :
    ∃ a disk' p', Turn J W disk p a disk' p' ∧ a.Alone station := by
  cases hl : p.listener with
  | spawned replay => exact ⟨_, _, _, .listenerStarts hl, trivial⟩
  | replaying rest =>
      cases rest with
      | nil => exact ⟨_, _, _, .replayDone hl, trivial⟩
      | cons x rest =>
          rcases Nat.lt_or_ge p.chan.length queueCapacity with hroom | hfull
          · exact ⟨_, _, _, .replaySent hl hroom, trivial⟩
          · refine exists_worker_turn hstation hp hr (.inr fun h => ?_)
            rw [h] at hfull
            exact absurd hfull (by decide)
  | receiving =>
      refine exists_worker_turn hstation hp hr ?_
      by_cases hw : p.worker = .idle
      · exact .inr fun hc => hrest ⟨hl, hw, hc⟩
      · exact .inl hw
  | appending adif =>
      have happ : QsoQueue.append J p.inner disk adif { now := 0 } = (_, _, _) := rfl
      exact ⟨_, _, _, .appended hl happ, trivial⟩
  | sending item =>
      rcases Nat.lt_or_ge p.chan.length queueCapacity with hroom | hfull
      · exact ⟨_, _, _, .trySent hl hroom, trivial⟩
      · exact ⟨_, _, _, .tryFull hl hfull, trivial⟩
  | stopped => exact absurd hl hp.listener

end Turns

/-- A turn that is no reception is a step in which something is done. -/
theorem Turn.working (h : Turn J W disk p a disk' p') (hp : p.Steady) (ha : a.arrives = false) :
    Working J W ⟨disk, some p⟩ a ⟨disk', some p'⟩ where
  step := h.step hp
  update := by cases h <;> rfl
  same := by cases h <;> trivial
  runs := rfl
  changes heq := by
    have hlt := h.work_step
    cases heq
    rw [ha] at hlt
    exact absurd hlt (Nat.not_succ_le_self _)

/-! ### What becomes of each item -/

/-- The listener is done with the item: it has sent it, or dropped it at a full channel. -/
@[simp] def Act.handedItem : Act → Option QueueItem
  | .sent item | .overflowed item => some item
  | _ => none

def handedItems (cur : List Act) : List QueueItem := cur.filterMap Act.handedItem

@[simp] theorem handedItems_snoc (cur : List Act) (a : Act) :
    handedItems (cur ++ [a]) = handedItems cur ++ a.handedItem.toList := filterMap_snoc _ _ _

/-- Why the memory still holds an entry that nobody works on: it was dropped at a full channel, or
its push was not settled, or its append failed. -/
inductive Excused (cur : List Act) (e : Entry) : Prop where
  | shed (h : .overflowed (replayItem e.pair) ∈ cur)
  | unsettled {station : Resolution} {attempts : List Exchange} {res : Except WavelogError Unit}
      (h : .posted (replayItem e.pair) station attempts res ∈ cur) (hres : ¬ Settles res)
  | unwritten {io : AppendIo} {ev : List Entry} {err : QsoQueueError}
      (h : .appended e io ev (.error err) ∈ cur)

/-- Why the file holds an entry that memory does not: a call that took it out of memory failed. -/
inductive Stuck (cur : List Act) (e : Entry) : Prop where
  | unremoved {io : RewriteIo} {err : QsoQueueError} (h : .removed e.seq io (.error err) ∈ cur)
  | unevicted {new : Entry} {io : AppendIo} {ev : List Entry} {err : QsoQueueError}
      (h : .appended new io ev (.error err) ∈ cur) (he : e ∈ ev)

variable {cur : List Act}

theorem Stuck.snoc {e : Entry} (h : Stuck cur e) (a : Act) : Stuck (cur ++ [a]) e := by
  cases h with
  | unremoved h => exact .unremoved (List.mem_append_left _ h)
  | unevicted h he => exact .unevicted (List.mem_append_left _ h) he

theorem Excused.snoc {e : Entry} (h : Excused cur e) (a : Act) : Excused (cur ++ [a]) e := by
  cases h with
  | shed h => exact .shed (List.mem_append_left _ h)
  | unsettled h hres => exact .unsettled (List.mem_append_left _ h) hres
  | unwritten h => exact .unwritten (List.mem_append_left _ h)

/-- Of an entry in memory: it is in flight, or about to be removed, or excused. -/
inductive Minded (cur : List Act) (p : Proc) (e : Entry) : Prop where
  | inFlight (h : replayItem e.pair ∈ p.inFlight)
  | removing (h : p.worker = .removing e.seq)
  | excused (h : Excused cur e)

theorem handlePostOutcome_settled {res : Except WavelogError Unit} {item : QueueItem}
    {seq : UInt64} (hres : Settles res) (hseq : item.seq = some seq) :
    handlePostOutcome res item = .removing seq := by
  cases res with
  | ok => simp [handlePostOutcome, hseq]
  | error e =>
      cases e with
      | rejected => simp [handlePostOutcome, hseq]
      | _ => exact hres.elim

/-- **An item stays in flight** until it is dropped at a full channel, or its push is over. -/
theorem Turn.inFlight {item : QueueItem} (h : Turn J W disk p a disk' p')
    (hi : item ∈ p.inFlight) :
    item ∈ p'.inFlight ∨ a = .overflowed item ∨
      ∃ res, p.worker = .finishing item res ∧ p'.worker = handlePostOutcome res item := by
  rw [mem_inFlight] at hi ⊢
  cases h with
  | @appended _ adif _ _ res hl => cases res <;> grind [Listener.items, afterAppend]
  | _ => grind [Listener.items, Worker.items]

/-- An entry of which somebody is in charge stays so, or is excused. -/
theorem Minded.step {e : Entry} (hm : Minded cur p e) (hj : Judged cur p.worker)
    (h : Turn J W disk p a disk' p') (he : e ∈ p'.inner.entries) : Minded (cur ++ [a]) p' e := by
  cases hm with
  | inFlight hi =>
      rcases h.inFlight hi with hi | rfl | ⟨res, hw, hw'⟩
      · exact .inFlight hi
      · exact .excused (.shed (by simp))
      · rw [hw] at hj
        obtain ⟨station, attempts, hmem⟩ := hj
        by_cases hres : Settles res
        · refine .removing (hw'.trans (handlePostOutcome_settled hres rfl))
        · exact .excused (.unsettled (List.mem_append_left _ hmem) hres)
  | removing hw =>
      cases h with
      | removed hw' hrm =>
          cases hw.symm.trans hw'
          rw [remove_memory hrm] at he
          have hne := (List.mem_filter.mp he).2
          simp at hne
      | workerStarts hw' | taken hw' | posted hw' | finished hw' => cases hw.symm.trans hw'
      | _ => exact .removing hw
  | excused hx => exact .excused (hx.snoc a)

/-- An entry that an append makes is on its way, or its append has failed. -/
theorem Minded.appended {e : Entry} (h : Turn J W disk p a disk' p') (ha : a.Appends e) :
    Minded (cur ++ [a]) p' e := by
  cases h with
  | @appended _ adif io inner' res hl happ =>
      obtain rfl := ha
      cases res with
      | error err => exact .excused (.unwritten List.mem_concat_self)
      | ok seq =>
          obtain rfl := (append_memory happ).2 seq rfl
          exact .inFlight (mem_inFlight.mpr (.inl (List.mem_singleton.mpr rfl)))
  | _ => exact ha.elim

/-- The lines of the file are in memory, or stuck. -/
structure Lined (J : SerdeJson) (cur : List Act) (disk : Disk) (inner : Inner) : Prop where
  shape : ∃ sh : FileShape J, disk.Has sh
  lines : ∀ e ∈ disk.entryLines J, e ∈ inner.entries ∨ Stuck cur e

/-- A file that was rewritten is what is in memory. -/
theorem Lined.of_rewrite (hJ : J.Strict) {inner : Inner}
    (h : disk.Has (FileShape.ofEntries hJ.toLawful inner.entries)) : Lined J cur disk inner :=
  ⟨⟨_, h⟩, fun _ he => .inl (entryLines_ofEntries hJ h ▸ he)⟩

/-- An append that fails keeps what it evicts in the file; one below the bound evicts nothing. -/
theorem Lined.appended (hJ : J.Strict) {inner inner' : Inner} {adif : Text} {io : AppendIo}
    {res : Except QsoQueueError UInt64} (hl : Lined J cur disk inner)
    (h : QsoQueue.append J inner disk adif io = (res, inner', disk')) :
    Lined J (cur ++ [.appended (newEntry inner adif io.now) io (evicted inner) res]) disk'
      inner' := by
  obtain ⟨⟨sh, hsh⟩, hlines⟩ := hl
  obtain ⟨rfl, -⟩ := append_memory h
  obtain ⟨-, hrw | ⟨rfl, hres⟩⟩ | ⟨hlen, n, hn, -⟩ := append_spec hJ.toLawful hsh h
  · exact .of_rewrite hJ hrw
  · obtain ⟨err, rfl⟩ : ∃ err, res = .error err := by
      cases res with
      | ok seq => exact absurd rfl (hres seq)
      | error err => exact ⟨err, rfl⟩
    refine ⟨⟨sh, hsh⟩, fun e he => ?_⟩
    rcases hlines e he with hmem | hstuck
    · rcases Fifo.mem_push_or_dropped maxQueueLen_pos hmem (newEntry inner adif io.now) with
        hmem | hev
      · exact .inl (by rwa [pushed_entries])
      · exact .inr (.unevicted List.mem_concat_self hev)
    · exact .inr (hstuck.snoc _)
  · refine ⟨⟨_, hn⟩, fun e he => ?_⟩
    rw [pushed_of_lt hlen]
    rcases List.mem_append.mp ((entryLines_write hJ hsh hn).subset he) with he | he
    · rcases hlines e he with hmem | hstuck
      · exact .inl (List.mem_append_left _ hmem)
      · exact .inr (hstuck.snoc _)
    · exact .inl (List.mem_append_right _ he)

/-- A removal that fails keeps in the file what it takes out of memory. -/
theorem Lined.removed (hJ : J.Strict) {inner inner' : Inner} {seq : UInt64} {io : RewriteIo}
    {res : Except QsoQueueError Unit} (hl : Lined J cur disk inner)
    (h : QsoQueue.remove J inner disk seq io = (res, inner', disk')) :
    Lined J (cur ++ [.removed seq io res]) disk' inner' := by
  obtain ⟨⟨sh, hsh⟩, hlines⟩ := hl
  obtain rfl := remove_memory h
  rcases remove_spec hJ.toLawful h with hrw | ⟨rfl, hnone | ⟨err, rfl⟩⟩
  · exact .of_rewrite hJ hrw
  · rw [dropped_of_not_pending hnone]
    exact ⟨⟨sh, hsh⟩, fun e he => (hlines e he).imp_right fun hs => hs.snoc _⟩
  · refine ⟨⟨sh, hsh⟩, fun e he => ?_⟩
    rcases hlines e he with hmem | hstuck
    · by_cases hseq : e.seq = seq
      · subst hseq
        exact .inr (.unremoved List.mem_concat_self)
      · exact .inl (List.mem_filter.mpr ⟨hmem, bne_iff_ne.mpr hseq⟩)
    · exact .inr (hstuck.snoc _)

theorem Lined.step (hJ : J.Strict) (hl : Lined J cur disk p.inner)
    (h : Turn J W disk p a disk' p') : Lined J (cur ++ [a]) disk' p'.inner := by
  cases h with
  | appended _ h => exact hl.appended hJ h
  | removed _ h => exact hl.removed hJ h
  | _ => exact ⟨hl.shape, fun e he => (hl.lines e he).imp_right fun hs => hs.snoc _⟩

/-- The item that is being pushed. -/
def Worker.pushed : Worker → List QueueItem
  | .pushing item => [item]
  | _ => []

/-- The items of a process after the acts `cur`, by where its tasks are. -/
structure Handling (replay : Replay) (cur : List Act) (p : Proc) : Prop where
  handed : replay.map replayItem ++ ackedItems cur = handedItems cur ++ p.listener.items
  drawn : Drawn cur p
  worked : Worked cur p.worker
  pushed : takenItems cur = postedItems cur ++ p.worker.pushed
  minded : ∀ e ∈ p.inner.entries, Minded cur p e

theorem Handling.handed_step {replay : Replay} (h : Turn J W disk p a disk' p')
    (hh : replay.map replayItem ++ ackedItems cur = handedItems cur ++ p.listener.items) :
    replay.map replayItem ++ ackedItems (cur ++ [a]) =
      handedItems (cur ++ [a]) ++ p'.listener.items := by
  cases h with
  | listenerStarts hl | replaySent hl | replayDone hl | received hl | trySent hl | tryFull hl =>
      simpa [hl, Listener.items] using hh
  | @appended _ adif _ _ res hl =>
      rw [hl] at hh
      cases res with
      | ok seq => simpa [Listener.items, afterAppend, newEntry, ← List.append_assoc] using hh
      | error => simpa [Listener.items, afterAppend] using hh
  | _ => simpa using hh

theorem Handling.pushed_step (h : Turn J W disk p a disk' p')
    (hh : takenItems cur = postedItems cur ++ p.worker.pushed) :
    takenItems (cur ++ [a]) = postedItems (cur ++ [a]) ++ p'.worker.pushed := by
  cases h with
  | workerStarts hw | taken hw | posted hw | removed hw => simpa [hw, Worker.pushed] using hh
  | @finished item res _ hw =>
      rw [hw] at hh
      rcases handlePostOutcome_cases res item with h | ⟨seq, h⟩ <;>
        simpa [h, Worker.pushed] using hh
  | _ => simpa using hh

/-- **A turn keeps track of every item.** -/
theorem Handling.step {replay : Replay} (hh : Handling replay cur p) (hp : p.Steady)
    (h : Turn J W disk p a disk' p') : Handling replay (cur ++ [a]) p' where
  handed := handed_step h hh.handed
  drawn := hh.drawn.step (h.step hp)
  worked := hh.worked.step (h.step hp)
  pushed := pushed_step h hh.pushed
  minded e he := by
    rcases memory_gain (h.step hp) he with hold | ⟨hnew, -⟩
    · exact (hh.minded e hold).step hh.worked.judged h he
    · exact .appended h hnew

theorem Handling.start {inner : Inner} {replay : Replay}
    (hreplay : replay = inner.entries.map Entry.pair) :
    Handling replay [] (.spawn inner replay) where
  handed := List.append_nil _
  drawn := ⟨List.nil_prefix, fun _ => rfl⟩
  worked := ⟨List.Sublist.refl _, trivial⟩
  pushed := rfl
  minded e he := by
    refine .inFlight (mem_inFlight.mpr (.inl ?_))
    exact List.mem_map_of_mem (hreplay ▸ List.mem_map_of_mem he)

/-! ### Every run -/

/-- What a process does that nothing asks to stop. -/
structure Delivery (J : SerdeJson) (W : WavelogJson) (replay : Replay) (cur : List Act)
    (w : World) : Prop where
  /-- Its tasks take so many steps at most, by what there is to push. -/
  bounded : cur.length ≤ 5 * replay.length + 3 + 7 * cur.countP Act.arrives
  /-- Whatever is going on, they can come to wait with no further QSO, and with no answer to a
  POST, also where the look-up of the station fails. -/
  drains : ∀ station, resolve W station ≠ none → ∃ cur' w' p,
    Run (Working J W) (fun _ a => a.Alone station) w cur' w' ∧ w'.proc = some p ∧ p.Resting
  /-- When they wait, each QSO replayed or received has been sent or dropped, in order, and each
  one sent has been pushed. -/
  done : ∀ p, w.proc = some p → p.Resting →
    handedItems cur = replay.map replayItem ++ ackedItems cur ∧ postedItems cur = sentItems cur
  /-- Then the memory holds nothing without a reason, and no line of the file does. -/
  left : ∀ p, w.proc = some p → p.Resting → ∀ e ∈ p.inner.entries, Excused cur e
  written : ∀ p, w.proc = some p → p.Resting → ∀ e ∈ w.disk.entryLines J,
    Excused cur e ∨ Stuck cur e

/-- A process at work. -/
def World.AtWork (w : World) : Prop := ∃ p, w.proc = some p ∧ p.Steady ∧ p.Readable

/-- At most `n` turns are left to it. -/
def World.Left (n : Nat) (w : World) : Prop := ∃ p, w.proc = some p ∧ p.Steady ∧ p.work ≤ n

theorem Working.turn_of {w w' : World} (h : Working J W w a w') (hw : w.proc = some p)
    (hp : p.Steady) : ∃ disk disk' p', w = ⟨disk, some p⟩ ∧ w' = ⟨disk', some p'⟩ ∧
      Turn J W disk p a disk' p' := by
  obtain ⟨disk, proc⟩ := w
  obtain ⟨disk', _ | p'⟩ := w'
  · cases h.runs
  · cases hw
    exact ⟨disk, disk', p', rfl, rfl, h.turn hp⟩

theorem World.AtWork.step {w w' : World} (hw : w.AtWork) (h : Working J W w a w') :
    w'.AtWork := by
  obtain ⟨p, hproc, hp, hr⟩ := hw
  obtain ⟨disk, disk', p', rfl, rfl, ht⟩ := h.turn_of hproc hp
  exact ⟨p', rfl, hp.step ht, hr.step hp ht⟩

theorem World.Left.step {w w' : World} {n : Nat} (hw : w.Left n) (h : Working J W w a w') :
    ∃ m, w'.Left m ∧ m + 1 ≤ n + 7 * a.arrives.toNat := by
  obtain ⟨p, hproc, hp, hn⟩ := hw
  obtain ⟨disk, disk', p', rfl, rfl, ht⟩ := h.turn_of hproc hp
  have hwork := ht.work_step
  exact ⟨p'.work, ⟨p', rfl, hp.step ht, Nat.le_refl _⟩, by omega⟩

/-- Where a process at work has nothing to do, it waits. -/
theorem World.AtWork.drains {w : World} (hw : w.AtWork) {station : Resolution}
    (hstation : resolve W station ≠ none) :
    ∃ cur w' p, Run (Working J W) (fun _ a => a.Alone station) w cur w' ∧
      w'.proc = some p ∧ p.Resting := by
  have hleft : ∃ n, w.Left n := by
    obtain ⟨p, hproc, hp, -⟩ := hw
    exact ⟨p.work, p, hproc, hp, Nat.le_refl _⟩
  obtain ⟨n, hn⟩ := hleft
  have hnext : ∀ {w : World} {n : Nat}, w.AtWork → w.Left n →
      (¬ ∃ p, w.proc = some p ∧ p.Resting) →
      ∃ a w' m, Working J W w a w' ∧ a.Alone station ∧ m < n ∧ World.Left m w' := by
    rintro ⟨disk, proc⟩ n ⟨p, hproc, hp, hr⟩ ⟨p', hproc', -, hn⟩ hdone
    cases hproc
    cases hproc'
    have hturn : ∃ a disk' p', Turn J W disk p a disk' p' ∧ a.Alone station :=
      exists_turn hstation hp hr fun hrest => hdone ⟨p, rfl, hrest⟩
    obtain ⟨a, disk', p', ht, ha⟩ := hturn
    have hwork := ht.work_step
    rw [ha.not_arrives, Bool.toNat_false] at hwork
    exact ⟨a, ⟨disk', some p'⟩, p'.work, ht.working hp ha.not_arrives, ha, by omega, p', rfl,
      hp.step ht, Nat.le_refl _⟩
  obtain ⟨cur, w', h, p, hproc, hrest⟩ := Run.exists_done World.Left World.AtWork _
    (fun hw _ hs => hw.step hs) hnext hw hn
  exact ⟨cur, w', p, h, hproc, hrest⟩

/-- The texts of a queue that this program has written can be looked up. -/
theorem readable_stored (hJ : J.Strict) {tr : List Act} {w : World}
    (h : Run (Step J W) Always World.fresh tr w) {e : Entry} (he : e ∈ w.disk.stored J) :
    Readable e.adif := by
  have hcopies : 0 < copies e.adif (w.disk.stored J) :=
    List.countP_pos_iff.mpr ⟨e, he, decide_eq_true rfl⟩
  have hrec : 0 < receptions e.adif tr :=
    Nat.lt_of_lt_of_le hcopies (stored_le hJ h e.adif)
  obtain ⟨a, ha, hrecv⟩ := List.countP_pos_iff.mp hrec
  cases a with
  | received d adif =>
      obtain rfl : adif = e.adif := of_decide_eq_true hrecv
      obtain ⟨summary, hd⟩ := received_run h ha
      rw [Readable, summarizeAdif_of_receive hd]
      rfl
  | _ => cases hrecv

/-- A process that has just started, on a queue of this program. -/
theorem start_of_opened (hJ : J.Strict) {tr : List Act} {io : OpenIo} {replay : Replay} {w : World}
    (h : Run (Step J W) Always World.fresh (tr ++ [.opened io replay]) w) :
    ∃ disk inner, w = ⟨disk, some (.spawn inner replay)⟩ ∧
      replay = inner.entries.map Entry.pair ∧ (∀ e ∈ inner.entries, Readable e.adif) ∧
        Lined J [] disk inner := by
  obtain ⟨m, m', h₁, -, hs, h₂⟩ := h.step_at
  obtain ⟨rfl⟩ : m' = w := by
    generalize htr : ([] : List Act) = tr₂ at h₂
    cases h₂ with
    | nil => rfl
    | snoc => simp at htr
  cases hs with
  | @opened disk disk' _ inner _ ho =>
      obtain ⟨sh, hsh⟩ : ∃ sh : FileShape J, disk.Has sh := (tally_run hJ h₁ []).1.shape
      obtain ⟨sh', ⟨hsh', -⟩, hres⟩ := open_spec hJ hsh ho
      obtain ⟨-, hinner, hreplay⟩ := hres _ _ rfl
      have hlines : disk'.entryLines J = inner.entries := by
        rw [entryLines_shape hJ hsh', hinner]
      refine ⟨disk', inner, rfl, by rw [hreplay, hinner], fun e he => ?_,
        ⟨sh', hsh'⟩, fun e he => .inl (hlines ▸ he)⟩
      obtain ⟨rfl, -⟩ := open_stored ho
      exact readable_stored hJ h₁ he

/-- A process at work, what it has done, and what is in its file. -/
structure Accounted (J : SerdeJson) (replay : Replay) (cur : List Act) (disk : Disk) (p : Proc) :
    Prop where
  steady : p.Steady
  readable : p.Readable
  handling : Handling replay cur p
  lined : Lined J cur disk p.inner

theorem Accounted.step (hJ : J.Strict) {replay : Replay} (hc : Accounted J replay cur disk p)
    (h : Turn J W disk p a disk' p') : Accounted J replay (cur ++ [a]) disk' p' where
  steady := hc.steady.step h
  readable := hc.readable.step hc.steady h
  handling := hc.handling.step hc.steady h
  lined := hc.lined.step hJ h

/-- What a process has done, in any run of its tasks. -/
theorem accounted_run (hJ : J.Strict) {replay : Replay} {w : World}
    (h₀ : Accounted J replay [] disk p)
    (h : Run (Working J W) Always ⟨disk, some p⟩ cur w) :
    ∃ disk' p', w = ⟨disk', some p'⟩ ∧ Accounted J replay cur disk' p' := by
  refine h.invariant (I := fun cur w => ∃ disk' p', w = ⟨disk', some p'⟩ ∧
    Accounted J replay cur disk' p') ⟨disk, p, rfl, h₀⟩ ?_
  rintro cur w a w' - ⟨disk, p, rfl, hc⟩ - hs
  obtain ⟨_, disk', p', heq, rfl, ht⟩ := hs.turn_of rfl hc.steady
  cases heq
  exact ⟨disk', p', rfl, hc.step hJ ht⟩

/-- When the tasks wait, nothing is in flight. -/
theorem Handling.resting {replay : Replay} (h : Handling replay cur p) (hrest : p.Resting) :
    (handedItems cur = replay.map replayItem ++ ackedItems cur ∧
      postedItems cur = sentItems cur) ∧ ∀ e ∈ p.inner.entries, Excused cur e := by
  obtain ⟨hl, hw, hc⟩ := hrest
  have hitems : p.listener.items = [] := by rw [hl]; rfl
  have hnone : p.worker.pushed = [] := by rw [hw]; rfl
  have hhanded := h.handed
  have hsent := h.drawn.chan (by rw [hw]; exact fun e => by cases e)
  have hpushed := h.pushed
  rw [hitems, List.append_nil] at hhanded
  rw [hc, List.append_nil] at hsent
  rw [hnone, List.append_nil] at hpushed
  refine ⟨⟨hhanded.symm, (hsent.trans hpushed).symm⟩, fun e he => ?_⟩
  cases h.minded e he with
  | inFlight hi => simp [mem_inFlight, hl, hc, hw, Listener.items, Worker.items] at hi
  | removing hr => cases hw.symm.trans hr
  | excused hx => exact hx

/-- **What is replayed and received is pushed.**  A process that nothing asks to stop, on a queue
that this program has written, and through any order of its tasks. -/
theorem delivery (hJ : J.Strict) {tr cur : List Act} {io : OpenIo} {replay : Replay}
    {w₀ w : World} (h₀ : Run (Step J W) Always World.fresh (tr ++ [.opened io replay]) w₀)
    (h : Run (Working J W) Always w₀ cur w) : Delivery J W replay cur w := by
  obtain ⟨disk, inner, rfl, hreplay, hread, hlined⟩ := start_of_opened hJ h₀
  have hsteady : (Proc.spawn inner replay).Steady :=
    ⟨rfl, rfl, rfl, fun e => (by cases e), fun e => (by cases e)⟩
  have hreadable : (Proc.spawn inner replay).Readable := by
    refine ⟨fun item hi => ?_, fun adif hl => (by cases hl)⟩
    obtain ⟨e, he, rfl⟩ : ∃ e ∈ inner.entries, replayItem e.pair = item := by
      simpa [mem_inFlight, Proc.spawn, Listener.items, Worker.items, hreplay] using hi
    exact hread e he
  obtain ⟨disk', p, rfl, hc⟩ := accounted_run hJ ⟨hsteady, hreadable, .start hreplay, hlined⟩ h
  refine ⟨?_, ?_, fun p' hp' hrest => ?_, fun p' hp' hrest => ?_, fun p' hp' hrest e he => ?_⟩
  · have hwork : World.Left (5 * replay.length + 3) ⟨disk, some (.spawn inner replay)⟩ :=
      ⟨_, rfl, hsteady, Nat.le_refl _⟩
    obtain ⟨m, -, hm⟩ := Run.spent World.Left (fun _ => true) Act.arrives 7
      (fun _ hs hb => hb.step hs) hwork h
    rw [List.countP_true] at hm
    omega
  · exact fun station hstation => World.AtWork.drains ⟨p, rfl, hc.steady, hc.readable⟩ hstation
  · cases hp'
    exact (hc.handling.resting hrest).1
  · cases hp'
    exact (hc.handling.resting hrest).2
  · cases hp'
    exact (hc.lined.lines e he).imp_left fun hmem => (hc.handling.resting hrest).2 e hmem

/-- **An outage is made good** by the next process, which then rests. -/
theorem outage_delivery : ∃ w₀ w p,
    Run (Step json createdJson) Always World.fresh (outageActs ++ [.opened {} [qsoA.pair]]) w₀ ∧
      Run (Working json createdJson) Always w₀ replayActs w ∧ w.proc = some p ∧ p.Resting ∧
        Delivery json createdJson [qsoA.pair] replayActs w := by
  obtain ⟨disk, hdisk, hrun⟩ := outage_run
  have hopen : QsoQueue.open json disk {} = _ := open_of_lists json_strict.toLawful rfl hdisk
  have hstart := hrun.extend (.opened hopen) trivial
  obtain ⟨disk₁, hrem, hdisk₁⟩ := remove_of_lists ⟨_, 2⟩ 1 hdisk
  have hpos : ([] : List Entry).length < maxQueueLen := maxQueueLen_pos
  obtain ⟨disk₂, happ, hdisk₂⟩ := append_below 2 adifB 0 hpos hdisk₁
  obtain ⟨disk₃, hrem', -⟩ := remove_of_lists ⟨_, 3⟩ 2 hdisk₂
  have hwork : Run (Working json createdJson) Always ⟨disk, some (.spawn ⟨[qsoA], 2⟩ [qsoA.pair])⟩
      replayActs ⟨disk₃, some (.waiting ⟨[], 3⟩)⟩ := by
    refine .cons trivial ⟨.listenerStarts rfl rfl, rfl, trivial, rfl, fun h => (by cases h)⟩ ?_
    refine .cons trivial ⟨.replaySent rfl nofun (by decide), rfl, trivial, rfl,
      fun h => (by cases h)⟩ ?_
    refine .cons trivial ⟨.replayDone rfl, rfl, trivial, rfl, fun h => (by cases h)⟩ ?_
    refine .cons trivial ⟨.workerStarts rfl rfl, rfl, trivial, rfl, fun h => (by cases h)⟩ ?_
    refine .cons trivial ⟨.taken rfl rfl, rfl, trivial, rfl, fun h => (by cases h)⟩ ?_
    refine .cons trivial ⟨.posted rfl pushOne_created, rfl, trivial, rfl, fun h => (by cases h)⟩ ?_
    refine .cons trivial ⟨.finished rfl (summarizeAdif_of_receive receive_datagramA), rfl, trivial,
      rfl, fun h => (by cases h)⟩ ?_
    refine .cons trivial ⟨.removed rfl hrem, rfl, trivial, rfl, fun h => (by cases h)⟩ ?_
    refine .cons trivial ⟨.received rfl receive_datagramB, rfl, trivial, rfl,
      fun h => (by cases h)⟩ ?_
    refine .cons trivial ⟨.append_of rfl happ rfl (Fifo.dropped_of_lt hpos), rfl, trivial, rfl,
      fun h => (by cases h)⟩ ?_
    refine .cons trivial ⟨.trySent rfl nofun (by decide), rfl, trivial, rfl,
      fun h => (by cases h)⟩ ?_
    refine .cons trivial ⟨.taken rfl rfl, rfl, trivial, rfl, fun h => (by cases h)⟩ ?_
    refine .cons trivial ⟨.posted rfl pushOne_created, rfl, trivial, rfl, fun h => (by cases h)⟩ ?_
    refine .cons trivial ⟨.finished rfl (summarizeAdif_of_receive receive_datagramB), rfl, trivial,
      rfl, fun h => (by cases h)⟩ ?_
    exact .cons trivial ⟨.removed rfl hrem', rfl, trivial, rfl, fun h => (by cases h)⟩ .nil
  exact ⟨_, _, _, hstart, hwork, rfl, ⟨rfl, rfl, rfl⟩, delivery json_strict hstart hwork⟩

end WavelogRelay.Wsjtx
