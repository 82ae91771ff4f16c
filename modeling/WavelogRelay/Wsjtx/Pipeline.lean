import WavelogRelay.Queue.Refinement
import WavelogRelay.Util
import WavelogRelay.Wavelog.Client
import WavelogRelay.Wsjtx.Protocol

/-!
# WSJT-X — the listener and the POST worker

`wsjtx/mod.rs` with persistence on: two tasks, the bounded channel between them, the queue they
share and the shutdown channel they watch, in one process after another over one queue file.
`Step` is one step of one task, from one await point to the next, or an event of the process.
What the file system, the network and Wavelog do is part of the act.

* `step_queue`: seen from the queue, a step of the pipeline is a call on the queue or nothing.
* `run_queue`: so a run of the pipeline is a run of calls.
-/

namespace WavelogRelay.Wsjtx
open Library Queue Wavelog

/-- `QUEUE_CAPACITY`. -/
def queueCapacity : Nat := 32

structure QueueItem where
  seq : Option UInt64
  adif : Text
  deriving DecidableEq, Repr

/-- Where `listen` is. -/
inductive Listener where
  | spawned (replay : Replay)
  | replaying (rest : Replay)
  | receiving
  | appending (adif : Text)
  | sending (item : QueueItem)
  | stopped
  deriving DecidableEq, Repr

/-- Where `post_loop` is. -/
inductive Worker where
  | spawned
  | idle
  | pushing (item : QueueItem)
  | finishing (item : QueueItem) (res : Except WavelogError Unit)
  | removing (seq : UInt64)
  | stopped
  deriving DecidableEq

/-- A running process. -/
structure Proc where
  inner : Inner
  listener : Listener
  listenerSeen : Nat
  worker : Worker
  workerSeen : Nat
  /-- The channel.  It is closed to the listener once the worker has stopped, and ends for the
  worker once the listener has. -/
  chan : List QueueItem
  shutdown : Watch Bool
  deriving DecidableEq

def Proc.spawn (inner : Inner) (replay : Replay) : Proc where
  inner := inner
  listener := .spawned replay
  listenerSeen := 0
  worker := .spawned
  workerSeen := 0
  chan := []
  shutdown := .new false

structure World where
  disk : Disk
  proc : Option Proc

def World.fresh : World := ⟨⟨none, []⟩, none⟩

/-- What the queue sees of it. -/
def World.sys (w : World) : Sys := ⟨w.disk, w.proc.map (·.inner)⟩

/-- The item `listen` sends for a replayed entry. -/
def replayItem (x : UInt64 × Text) : QueueItem := { seq := some x.1, adif := x.2 }

/-- Where the listener goes with the result of an append. -/
def afterAppend (adif : Text) : Except QsoQueueError UInt64 → Listener
  | .ok seq => .sending { seq := some seq, adif }
  | .error _ => .receiving

/-- `handle_post_outcome` and `remove_persisted`: where the worker goes with the outcome. -/
def handlePostOutcome (res : Except WavelogError Unit) (item : QueueItem) : Worker :=
  match res with
  | .ok () | .error (.rejected _) =>
      match item.seq with
      | some seq => .removing seq
      | none => .idle
  | .error _ => .idle

/-- A worker that has stopped has dropped its end of the channel, and what was in it. -/
def Proc.stopWorker (p : Proc) : Proc := { p with worker := .stopped, chan := [] }

@[simp] theorem Proc.stopWorker_inner (p : Proc) : p.stopWorker.inner = p.inner := rfl

@[simp] theorem Proc.stopWorker_listener (p : Proc) : p.stopWorker.listener = p.listener := rfl

@[simp] theorem Proc.stopWorker_worker (p : Proc) : p.stopWorker.worker = .stopped := rfl

@[simp] theorem Proc.stopWorker_chan (p : Proc) : p.stopWorker.chan = [] := rfl

inductive Act where
  | opened (io : OpenIo) (replay : Replay)
  | openFailed (io : OpenIo) (e : QsoQueueError)
  /-- The process ends, or is killed. -/
  | killed
  /-- A panic aborts the process. -/
  | aborted
  /-- `shutdown_tx.send(value)`. -/
  | shutdown (value : Bool)
  | senderDropped
  /-- A step of the listener, or of the worker, that is none of the others. -/
  | listener
  | worker
  | received (d : Datagram) (adif : Text)
  /-- An append of `entry`, and what it evicts. -/
  | appended (entry : Entry) (io : AppendIo) (evicted : List Entry)
      (res : Except QsoQueueError UInt64)
  | sent (item : QueueItem)
  /-- The channel is full. -/
  | overflowed (item : QueueItem)
  | taken (item : QueueItem)
  | posted (item : QueueItem) (station : Resolution) (attempts : List Exchange)
      (res : Except WavelogError Unit)
  | removed (seq : UInt64) (io : RewriteIo) (res : Except QsoQueueError Unit)

variable (J : SerdeJson) (W : WavelogJson)

inductive Step : World → Act → World → Prop where
  -- the process
  | opened {disk disk' : Disk} {io : OpenIo} {inner : Inner} {replay : Replay}
      (h : QsoQueue.open J disk io = (.ok (inner, replay), disk')) :
      Step ⟨disk, none⟩ (.opened io replay) ⟨disk', some (.spawn inner replay)⟩
  | openFailed {disk disk' : Disk} {io : OpenIo} {e : QsoQueueError}
      (h : QsoQueue.open J disk io = (.error e, disk')) :
      Step ⟨disk, none⟩ (.openFailed io e) ⟨disk', none⟩
  | killed {disk : Disk} {p : Proc} : Step ⟨disk, some p⟩ .killed ⟨disk, none⟩
  | shutdown {disk : Disk} {p : Proc} (value : Bool) :
      Step ⟨disk, some p⟩ (.shutdown value)
        ⟨disk, some { p with shutdown := p.shutdown.send value }⟩
  | senderDropped {disk : Disk} {p : Proc} :
      Step ⟨disk, some p⟩ .senderDropped ⟨disk, some { p with shutdown := p.shutdown.close }⟩
  -- the listener, up to its loop
  | listenerReturns {disk : Disk} {p : Proc} {replay : Replay} (hl : p.listener = .spawned replay)
      (hs : p.shutdown.value = true) :
      Step ⟨disk, some p⟩ .listener ⟨disk, some { p with listener := .stopped }⟩
  | listenerStarts {disk : Disk} {p : Proc} {replay : Replay} (hl : p.listener = .spawned replay)
      (hs : p.shutdown.value = false) :
      Step ⟨disk, some p⟩ .listener
        ⟨disk, some { p with listener := .replaying replay, listenerSeen := p.shutdown.version }⟩
  | replaySent {disk : Disk} {p : Proc} {x : UInt64 × Text} {rest : Replay}
      (hl : p.listener = .replaying (x :: rest)) (hw : p.worker ≠ .stopped)
      (hroom : p.chan.length < queueCapacity) :
      Step ⟨disk, some p⟩ (.sent (replayItem x))
        ⟨disk, some { p with listener := .replaying rest, chan := p.chan ++ [replayItem x] }⟩
  | replayClosed {disk : Disk} {p : Proc} {x : UInt64 × Text} {rest : Replay}
      (hl : p.listener = .replaying (x :: rest)) (hw : p.worker = .stopped) :
      Step ⟨disk, some p⟩ .listener ⟨disk, some { p with listener := .stopped }⟩
  | replayNotified {disk : Disk} {p : Proc} {x : UInt64 × Text} {rest : Replay} {ok : Bool}
      {seen : Nat} (hl : p.listener = .replaying (x :: rest))
      (hc : p.shutdown.changed p.listenerSeen = some (ok, seen)) :
      -- the `select!` drops the send with the item in it
      Step ⟨disk, some p⟩ .listener
        ⟨disk, some { p with
          listener := if shutdownObserved ok p.shutdown then .stopped else .replaying rest
          listenerSeen := seen }⟩
  | replayDone {disk : Disk} {p : Proc} (hl : p.listener = .replaying []) :
      Step ⟨disk, some p⟩ .listener ⟨disk, some { p with listener := .receiving }⟩
  -- the listener's loop
  | recvFailed {disk : Disk} {p : Proc} (hl : p.listener = .receiving) :
      Step ⟨disk, some p⟩ .listener ⟨disk, some p⟩
  | ignored {disk : Disk} {p : Proc} (d : Datagram) (hl : p.listener = .receiving)
      (hd : receive d = pure none ∨ ∃ e, receive d = throw e) :
      Step ⟨disk, some p⟩ .listener ⟨disk, some p⟩
  | receivePanics {disk : Disk} {p : Proc} (d : Datagram) (hl : p.listener = .receiving)
      (hd : (receive d).run = none) : Step ⟨disk, some p⟩ .aborted ⟨disk, none⟩
  | received {disk : Disk} {p : Proc} {d : Datagram} {adif : Text} {summary : AdifSummary}
      (hl : p.listener = .receiving) (hd : receive d = pure (some (adif, summary))) :
      Step ⟨disk, some p⟩ (.received d adif) ⟨disk, some { p with listener := .appending adif }⟩
  | appended {disk disk' : Disk} {p : Proc} {adif : Text} {io : AppendIo} {inner' : Inner}
      {res : Except QsoQueueError UInt64} (hl : p.listener = .appending adif)
      (h : QsoQueue.append J p.inner disk adif io = (res, inner', disk')) :
      Step ⟨disk, some p⟩ (.appended (newEntry p.inner adif io.now) io (evicted p.inner) res)
        ⟨disk', some { p with
          inner := inner'
          listener := afterAppend adif res }⟩
  | trySent {disk : Disk} {p : Proc} {item : QueueItem} (hl : p.listener = .sending item)
      (hw : p.worker ≠ .stopped) (hroom : p.chan.length < queueCapacity) :
      Step ⟨disk, some p⟩ (.sent item)
        ⟨disk, some { p with listener := .receiving, chan := p.chan ++ [item] }⟩
  | tryFull {disk : Disk} {p : Proc} {item : QueueItem} (hl : p.listener = .sending item)
      (hw : p.worker ≠ .stopped) (hfull : queueCapacity ≤ p.chan.length) :
      Step ⟨disk, some p⟩ (.overflowed item) ⟨disk, some { p with listener := .receiving }⟩
  | tryClosed {disk : Disk} {p : Proc} {item : QueueItem} (hl : p.listener = .sending item)
      (hw : p.worker = .stopped) :
      Step ⟨disk, some p⟩ .listener ⟨disk, some { p with listener := .stopped }⟩
  | listenerNotified {disk : Disk} {p : Proc} {ok : Bool} {seen : Nat}
      (hl : p.listener = .receiving)
      (hc : p.shutdown.changed p.listenerSeen = some (ok, seen)) :
      Step ⟨disk, some p⟩ .listener
        ⟨disk, some { p with
          listener := if shutdownObserved ok p.shutdown then .stopped else .receiving
          listenerSeen := seen }⟩
  -- the worker
  | workerReturns {disk : Disk} {p : Proc} (hw : p.worker = .spawned)
      (hs : p.shutdown.value = true) : Step ⟨disk, some p⟩ .worker ⟨disk, some p.stopWorker⟩
  | workerStarts {disk : Disk} {p : Proc} (hw : p.worker = .spawned)
      (hs : p.shutdown.value = false) :
      Step ⟨disk, some p⟩ .worker
        ⟨disk, some { p with worker := .idle, workerSeen := p.shutdown.version }⟩
  | taken {disk : Disk} {p : Proc} {item : QueueItem} {rest : List QueueItem}
      (hw : p.worker = .idle) (hchan : p.chan = item :: rest) :
      Step ⟨disk, some p⟩ (.taken item)
        ⟨disk, some { p with worker := .pushing item, chan := rest }⟩
  | chanEnded {disk : Disk} {p : Proc} (hw : p.worker = .idle) (hchan : p.chan = [])
      (hl : p.listener = .stopped) : Step ⟨disk, some p⟩ .worker ⟨disk, some p.stopWorker⟩
  | workerNotified {disk : Disk} {p : Proc} {ok : Bool} {seen : Nat} (hw : p.worker = .idle)
      (hc : p.shutdown.changed p.workerSeen = some (ok, seen)) :
      Step ⟨disk, some p⟩ .worker
        ⟨disk, some (if shutdownObserved ok p.shutdown then { p with workerSeen := seen }.stopWorker
          else { p with workerSeen := seen })⟩
  | posted {disk : Disk} {p : Proc} {item : QueueItem} {station : Resolution}
      {attempts : List Exchange} {res : Except WavelogError Unit}
      (hw : p.worker = .pushing item) (hres : pushOne W station attempts = some res) :
      Step ⟨disk, some p⟩ (.posted item station attempts res)
        ⟨disk, some { p with worker := .finishing item res }⟩
  | pushNotified {disk : Disk} {p : Proc} {item : QueueItem} {ok : Bool} {seen : Nat}
      (hw : p.worker = .pushing item)
      (hc : p.shutdown.changed p.workerSeen = some (ok, seen)) :
      -- the `select!` drops the push, wherever it is
      Step ⟨disk, some p⟩ .worker
        ⟨disk, some (if shutdownObserved ok p.shutdown then { p with workerSeen := seen }.stopWorker
          else { p with worker := .idle, workerSeen := seen })⟩
  | finishPanics {disk : Disk} {p : Proc} {item : QueueItem} {res : Except WavelogError Unit}
      (hw : p.worker = .finishing item res) (hsum : summarizeAdif item.adif = none) :
      Step ⟨disk, some p⟩ .aborted ⟨disk, none⟩
  | finished {disk : Disk} {p : Proc} {item : QueueItem} {res : Except WavelogError Unit}
      {summary : AdifSummary} (hw : p.worker = .finishing item res)
      (hsum : summarizeAdif item.adif = some summary) :
      Step ⟨disk, some p⟩ .worker
        ⟨disk, some { p with worker := handlePostOutcome res item }⟩
  | removed {disk disk' : Disk} {p : Proc} {seq : UInt64} {io : RewriteIo} {inner' : Inner}
      {res : Except QsoQueueError Unit} (hw : p.worker = .removing seq)
      (h : QsoQueue.remove J p.inner disk seq io = (res, inner', disk')) :
      Step ⟨disk, some p⟩ (.removed seq io res)
        ⟨disk', some { p with inner := inner', worker := .idle }⟩

theorem Step.append_of {J : SerdeJson} {W : WavelogJson} {disk disk' : Disk} {p : Proc}
    {adif : Text} {io : AppendIo} {inner' : Inner} {res : Except QsoQueueError UInt64}
    {entry : Entry} {ev : List Entry} (hl : p.listener = .appending adif)
    (h : QsoQueue.append J p.inner disk adif io = (res, inner', disk'))
    (hentry : newEntry p.inner adif io.now = entry) (hev : evicted p.inner = ev) :
    Step J W ⟨disk, some p⟩ (.appended entry io ev res)
      ⟨disk', some { p with
        inner := inner'
        listener := afterAppend adif res }⟩ := hentry ▸ hev ▸ .appended hl h

/-! ### The queue's view -/

/-- The call on the queue that an act makes. -/
def Act.call : Act → Option Queue.Act
  | .opened io replay => some (.opened io replay)
  | .openFailed io e => some (.openFailed io e)
  | .killed | .aborted => some .killed
  | .appended entry io ev res => some (.appended entry.adif io ev res)
  | .removed seq io res => some (.removed seq io res)
  | _ => none

/-- The calls of a run. -/
def calls (tr : List Act) : List Queue.Act := tr.filterMap Act.call

variable {J W}

/-- An act that is no call leaves the queue as it is. -/
theorem sys_of_not_call {w w' : World} {a : Act} (h : Step J W w a w') (ha : a.call = none) :
    w'.sys = w.sys := by
  cases h <;> cases ha <;> first | rfl | skip
  -- the two branches on what the shutdown channel says
  all_goals
    simp only [World.sys]
    split <;> rfl

/-- **Seen from the queue, a step is a call on it.** -/
theorem step_queue {w w' : World} {a : Act} {q : Queue.Act} (h : Step J W w a w')
    (ha : a.call = some q) : Queue.Step J w.sys q w'.sys := by
  cases h <;> cases ha
  case opened h => exact .opened h
  case openFailed h => exact .openFailed h
  case killed => exact .killed
  case receivePanics => exact .killed
  case appended h => exact .appended h
  case finishPanics => exact .killed
  case removed h => exact .removed h

/-- **A run of the pipeline is a run of calls.** -/
theorem run_queue {C : World → Act → Prop} {tr : List Act} {w : World}
    (h : Run (Step J W) C World.fresh tr w) :
    Run (Queue.Step J) Always Sys.fresh (calls tr) w.sys :=
  h.simulate World.sys Act.call sys_of_not_call fun _ hs ha => ⟨trivial, step_queue hs ha⟩

def Act.isAppend : Act → Bool
  | .appended .. => true
  | _ => false

/-- The number of QSOs that the processes of a run have appended, or tried to. -/
def qsos (tr : List Act) : Nat := tr.countP Act.isAppend

@[simp] theorem qsos_snoc (tr : List Act) (a : Act) :
    qsos (tr ++ [a]) = qsos tr + if a.isAppend then 1 else 0 := by
  simp [qsos, List.countP_append, List.countP_singleton]

theorem appends_calls (tr : List Act) : appends (calls tr) = qsos tr := by
  induction tr with
  | nil => rfl
  | cons a tr ih =>
      simp only [appends, calls, qsos, List.filterMap_cons, List.countP_cons] at ih ⊢
      cases a <;> simp [Act.call, Act.isAppend, Queue.Act.isAppend, List.countP_cons, ih]

section Seqs

variable {C : World → Act → Prop} {tr : List Act} {w : World}

/-- The seqs of the queue in any run of fewer than `2^64 - 1` QSOs. -/
theorem ordered (hJ : J.Strict) (h : Run (Step J W) C World.fresh tr w)
    (hn : qsos tr < UInt64.size - 1) :
    ∃ sh : FileShape J, w.disk.Has sh ∧ Ordered sh (w.proc.map (·.inner)) := by
  obtain ⟨sh, hsh, ho, -⟩ := Counted.run hJ (run_queue h) (appends_calls tr ▸ hn)
  exact ⟨sh, hsh, ho⟩

/-- The seq of one more QSO. -/
theorem nextSeq_lt (hJ : J.Strict) (h : Run (Step J W) C World.fresh tr w)
    (hn : qsos tr + 1 < UInt64.size - 1) {p : Proc} (hp : w.proc = some p) :
    p.inner.nextSeq < maxSeq := by
  exact nextSeq_lt_maxSeq hJ (run_queue h) (appends_calls tr ▸ hn) (by simp [World.sys, hp])

end Seqs

/-! ### One QSO -/

/-- No call of the act on the file system fails. -/
def Faultless (_ : World) (a : Act) : Prop :=
  match a.call with
  | some q => q.NoFault
  | none => True

theorem summarizeAdif_of_receive {d : Datagram} {adif : Text} {summary : AdifSummary}
    (h : receive d = pure (some (adif, summary))) : summarizeAdif adif = some summary := by
  rcases hp : parseLoggedAdif d.bytes with _ | e | _ | adif'
  · rw [receive, hp] at h
    cases h
  · rw [receive, hp] at h
    cases h
  · rw [receive, hp] at h
    cases h
  · have hp' : parseLoggedAdif d.bytes = pure (some adif') := hp
    rw [receive, hp', pure_bind] at h
    simp only [] at h
    cases hs : summarizeAdif adif' with
    | none =>
        rw [hs] at h
        cases h
    | some summary' =>
        rw [hs] at h
        cases h
        exact hs

/-- A process with nothing to do. -/
def Proc.waiting (inner : Inner) : Proc where
  inner := inner
  listener := .receiving
  listenerSeen := 0
  worker := .idle
  workerSeen := 0
  chan := []
  shutdown := .new false

section Qso

variable {disk : Disk}

theorem start_run (hdisk : disk.file = none) :
    Run (Step J W) Faultless ⟨disk, none⟩ [.opened {} [], .listener, .listener, .worker]
      ⟨disk, some (.waiting ⟨[], 1⟩)⟩ := by
  have hopen : QsoQueue.open J disk {} = (.ok (⟨[], 1⟩, []), disk) := by
    simp [QsoQueue.open, loadEntries, readToString, hdisk, Except.map, nextSeqOf]
  refine .cons rfl (.opened hopen) ?_
  refine .cons trivial (.listenerStarts rfl rfl) ?_
  refine .cons trivial (.replayDone rfl) ?_
  exact .cons trivial (.workerStarts rfl rfl) .nil

/-- The acts of one QSO that is received, pushed and removed. -/
def qsoActs (d : Datagram) (adif : Text) (seq : UInt64) (station : Resolution)
    (attempts : List Exchange) (res : Except WavelogError Unit) : List Act :=
  let item : QueueItem := { seq := some seq, adif }
  [.received d adif, .appended { seq, adif, receivedAt := 0 } { now := 0 } [] (.ok seq), .sent item,
    .taken item, .posted item station attempts res, .worker, .removed seq .ok (.ok ())]

/-- **A QSO goes through a waiting process** with an empty queue, and leaves one. -/
theorem qso_run {d : Datagram} {adif : Text}
    {summary : AdifSummary} (hd : receive d = pure (some (adif, summary))) {station : Resolution}
    {attempts : List Exchange} {res : Except WavelogError Unit}
    (hpush : pushOne W station attempts = some res) (seq : UInt64)
    (hres : handlePostOutcome res { seq := some seq, adif } = .removing seq)
    (hdisk : disk.Lists J []) :
    ∃ disk', disk'.Lists J [] ∧ Run (Step J W) Faultless ⟨disk, some (.waiting ⟨[], seq⟩)⟩
      (qsoActs d adif seq station attempts res) ⟨disk', some (.waiting ⟨[], seq + 1⟩)⟩ := by
  have hpos : ([] : List Entry).length < maxQueueLen := maxQueueLen_pos
  obtain ⟨disk₁, happ, hdisk₁⟩ := append_below seq adif 0 hpos hdisk
  obtain ⟨disk₂, hrem, hdisk₂⟩ := remove_of_lists ⟨_, seq + 1⟩ seq hdisk₁
  have hdropped : ∀ e : Entry, e.seq = seq →
      dropped ⟨[] ++ [e], seq + 1⟩ seq = ⟨[], seq + 1⟩ := fun e he => by
    simp [dropped, Fifo.delete, he]
  rw [hdropped _ rfl] at hrem hdisk₂
  refine ⟨disk₂, hdisk₂, ?_⟩
  have hroom : ([] : List QueueItem).length < queueCapacity := by decide
  refine .cons trivial (.received rfl hd) ?_
  refine .cons rfl (.append_of rfl happ rfl (Fifo.dropped_of_lt hpos)) ?_
  refine .cons trivial (.trySent rfl (fun h => by cases h) hroom) ?_
  refine .cons trivial (.taken rfl rfl) ?_
  refine .cons trivial (.posted rfl hpush) ?_
  refine .cons trivial (.finished rfl (summarizeAdif_of_receive hd)) ?_
  exact .cons rfl (.removed hres hrem) .nil

end Qso

end WavelogRelay.Wsjtx
