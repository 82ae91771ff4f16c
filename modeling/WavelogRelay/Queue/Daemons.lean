import WavelogRelay.Library.FileName
import WavelogRelay.Queue.Rewrite

/-!
# Queue — two daemons

Two processes, each with a queue path of its own, on one file system.  The calls of the two
interleave in any order, and either process may be killed at any time.  A lock is on the inode of
the lock file, and goes with the `QsoQueue`, or with the process.

* `DaemonStep`: `open`, `append`, `remove` and the end of one process, call by call.
* `DaemonStep.names`, `DaemonStep.opens`: what a step does to names, and which files it opens.
-/

namespace WavelogRelay.Queue
open Library

variable {δ : Type}

/-! ### The files of a queue -/

def tmpExt : Extension := .ofText ['t', 'm', 'p'] (by decide) (by decide) (by decide)

def lockExt : Extension := .ofText ['l', 'o', 'c', 'k'] (by decide) (by decide) (by decide)

/-- The extension of the backup of a corrupt file, by its time. -/
def corruptText (now : UInt64) : Text :=
  ['c', 'o', 'r', 'r', 'u', 'p', 't', '-'] ++ decimal now.toNat

theorem not_mem_corruptText {now : UInt64} {c : Char}
    (hc : c ∉ ['c', 'o', 'r', 'r', 'u', 'p', 't', '-']) (hd : c.isDigit = false) :
    c ∉ corruptText now := fun h => by
  rcases List.mem_append.mp h with h | h
  · exact hc h
  · rw [isDigit_of_mem_decimal h] at hd
    cases hd

def corruptExt (now : UInt64) : Extension :=
  .ofText (corruptText now) (List.cons_ne_nil _ _)
    (not_mem_corruptText (by decide) (by decide)) (not_mem_corruptText (by decide) (by decide))

def tempPath (path : Path δ) : Path δ := path.withExtension tmpExt

def lockPath (path : Path δ) : Path δ := path.withExtension lockExt

def corruptPath (path : Path δ) (now : UInt64) : Path δ := path.withExtension (corruptExt now)

/-- The files a process with a `QsoQueue` writes, truncates, renames or locks. -/
def queueFiles (path : Path δ) : List (Path δ) := [path, tempPath path, lockPath path]

/-! ### One process -/

/-- What a process has of a queue; it holds a `QsoQueue` from `holding` on. -/
inductive Daemon where
  | closed
  /-- In `open`: the lock file is open, the lock is held, the queue file is to be moved away, or
  to be written without its last line. -/
  | locking (lock : Nat)
  | loading (lock : Nat)
  | settingAside (lock : Nat)
  | repairing (lock : Nat) (inner : Inner) (bg : Background) (phase : Rewriting)
  /-- Between two calls, in an append of one line, or in a rewrite. -/
  | holding (lock : Nat) (inner : Inner)
  | appending (lock : Nat) (inner : Inner) (line : Bytes) (bg : Background) (phase : Writing)
  | rewriting (lock : Nat) (inner : Inner) (bg : Background) (phase : Rewriting)

/-- The lock a process holds. -/
def Daemon.lock : Daemon → Option Nat
  | .closed | .locking _ => none
  | .loading lock | .settingAside lock | .repairing lock _ _ _ | .holding lock _
  | .appending lock _ _ _ _ | .rewriting lock _ _ _ => some lock

/-- The lock file a process has open. -/
def Daemon.lockFile : Daemon → Option Nat
  | .locking lock => some lock
  | d => d.lock

/-- Has `open` returned a `QsoQueue` that is not dropped yet? -/
def Daemon.Holds : Daemon → Prop
  | .holding _ _ | .appending _ _ _ _ _ | .rewriting _ _ _ _ => True
  | _ => False

/-- What `open` does with what it read. -/
def afterRead (J : SerdeJson) (lock : Nat) : Except IoErrorKind Text → Daemon
  | .ok contents =>
      match parseEntries J contents with
      | some { entries, trailingDropped := false } => .holding lock ⟨entries, nextSeqOf entries⟩
      | some { entries, trailingDropped := true } =>
          .repairing lock ⟨entries, nextSeqOf entries⟩ .idle (.filling .opening)
      | none => .settingAside lock
  | .error .notFound => .holding lock ⟨[], nextSeqOf []⟩
  | .error _ => .closed

variable [DecidableEq δ]

/-- A step of a process with a queue at `path`, while the other one holds the lock `held`. -/
inductive DaemonStep (J : SerdeJson) (path : Path δ) (hasParent : Bool) (held : Option Nat) :
    Fs (Path δ) → Daemon → Fs (Path δ) → Daemon → Prop where
  | lockOpened {fs : Fs (Path δ)} :
      DaemonStep J path hasParent held fs .closed
        (fs.create (lockPath path)).2 (.locking (fs.create (lockPath path)).1)
  | locked {fs : Fs (Path δ)} {lock : Nat} (hfree : held ≠ some lock) :
      DaemonStep J path hasParent held fs (.locking lock) fs (.loading lock)
  -- the lock is another's, or the call fails
  | notLocked {fs : Fs (Path δ)} {lock : Nat} :
      DaemonStep J path hasParent held fs (.locking lock) fs .closed
  | loaded {fs : Fs (Path δ)} {lock : Nat} (fails : Bool) :
      DaemonStep J path hasParent held fs (.loading lock) fs
        (afterRead J lock (readToString fails ⟨fs.read path, []⟩))
  | setAside {fs : Fs (Path δ)} {lock : Nat} (now : UInt64) :
      DaemonStep J path hasParent held fs (.settingAside lock)
        (fs.rename path (corruptPath path now)) (.holding lock ⟨[], nextSeqOf []⟩)
  | setAsideFailed {fs : Fs (Path δ)} {lock : Nat} :
      DaemonStep J path hasParent held fs (.settingAside lock) fs .closed
  | repairing {fs fs' : Fs (Path δ)} {lock : Nat} {inner : Inner} {bg bg' : Background}
      {phase phase' : Rewriting} {a : RewriteAct}
      (hw : RewriteStep path (tempPath path) hasParent (utf8 (encode J inner.entries))
        ⟨fs, bg, phase⟩ a ⟨fs', bg', phase'⟩) :
      DaemonStep J path hasParent held fs (.repairing lock inner bg phase)
        fs' (.repairing lock inner bg' phase')
  | repaired {fs : Fs (Path δ)} {lock : Nat} {inner : Inner} {bg : Background} :
      DaemonStep J path hasParent held fs (.repairing lock inner bg (.returned (.ok ())))
        fs (.holding lock inner)
  | repairFailed {fs : Fs (Path δ)} {lock : Nat} {inner : Inner} {bg : Background}
      {e : QsoQueueError} :
      DaemonStep J path hasParent held fs (.repairing lock inner bg (.returned (.error e)))
        fs .closed
  | evicts {fs : Fs (Path δ)} {lock : Nat} {inner : Inner} (adif : Text) (now : UInt64)
      (hfull : maxQueueLen < inner.entries.length + 1) :
      DaemonStep J path hasParent held fs (.holding lock inner)
        fs (.rewriting lock (pushed inner adif now) .idle (.filling .opening))
  | appends {fs : Fs (Path δ)} {lock : Nat} {inner : Inner} (adif : Text) (now : UInt64)
      (hroom : inner.entries.length + 1 ≤ maxQueueLen) :
      DaemonStep J path hasParent held fs (.holding lock inner)
        fs (.appending lock (pushed inner adif now) (lineBytes J (newEntry inner adif now))
          .idle .opening)
  | appending {fs fs' : Fs (Path δ)} {lock : Nat} {inner : Inner} {line : Bytes}
      {bg bg' : Background} {phase phase' : Writing} {a : WriteAct}
      (hw : WriteStep path false line ⟨fs, bg, phase⟩ a ⟨fs', bg', phase'⟩) :
      DaemonStep J path hasParent held fs (.appending lock inner line bg phase)
        fs' (.appending lock inner line bg' phase')
  | appended {fs : Fs (Path δ)} {lock : Nat} {inner : Inner} {line : Bytes} {bg : Background}
      {ok : Bool} :
      DaemonStep J path hasParent held fs (.appending lock inner line bg (.closed ok))
        fs (.holding lock inner)
  | removes {fs : Fs (Path δ)} {lock : Nat} {inner : Inner} (seq : UInt64)
      (hin : (dropped inner seq).entries.length ≠ inner.entries.length) :
      DaemonStep J path hasParent held fs (.holding lock inner)
        fs (.rewriting lock (dropped inner seq) .idle (.filling .opening))
  | removesNone {fs : Fs (Path δ)} {lock : Nat} {inner : Inner} (seq : UInt64)
      (hout : (dropped inner seq).entries.length = inner.entries.length) :
      DaemonStep J path hasParent held fs (.holding lock inner)
        fs (.holding lock (dropped inner seq))
  | rewriting {fs fs' : Fs (Path δ)} {lock : Nat} {inner : Inner} {bg bg' : Background}
      {phase phase' : Rewriting} {a : RewriteAct}
      (hw : RewriteStep path (tempPath path) hasParent (utf8 (encode J inner.entries))
        ⟨fs, bg, phase⟩ a ⟨fs', bg', phase'⟩) :
      DaemonStep J path hasParent held fs (.rewriting lock inner bg phase)
        fs' (.rewriting lock inner bg' phase')
  | rewritten {fs : Fs (Path δ)} {lock : Nat} {inner : Inner} {bg : Background}
      {res : Except QsoQueueError Unit} :
      DaemonStep J path hasParent held fs (.rewriting lock inner bg (.returned res))
        fs (.holding lock inner)
  | released {fs : Fs (Path δ)} {lock : Nat} {inner : Inner} :
      DaemonStep J path hasParent held fs (.holding lock inner) fs .closed
  | killed {fs : Fs (Path δ)} {d : Daemon} : DaemonStep J path hasParent held fs d fs .closed

/-! ### What a step does -/

/-- The files of a process have open. -/
def Daemon.Opens (i : Nat) : Daemon → Prop
  | .closed => False
  | .locking lock | .loading lock | .settingAside lock | .holding lock _ => i = lock
  | .repairing lock _ bg phase | .rewriting lock _ bg phase => i = lock ∨ phase.Opens bg i
  | .appending lock _ _ bg phase => i = lock ∨ phase.Opens bg i

/-- The queue file and its siblings, but for the lock file. -/
def Touched (path n : Path δ) : Prop := n = path ∨ ∃ e, e ≠ lockExt ∧ n = path.withExtension e

theorem tmpExt_ne : tmpExt ≠ lockExt := by decide +kernel

theorem corruptExt_ne (now : UInt64) : corruptExt now ≠ lockExt := fun h => by
  have hb : utf8 (corruptText now) = utf8 ['l', 'o', 'c', 'k'] := congrArg Extension.bytes h
  have hc := congrArg List.head? (utf8_injective hb)
  cases hc

variable {J : SerdeJson} {path : Path δ} {hasParent : Bool} {held : Option Nat}
  {fs fs' : Fs (Path δ)} {d d' : Daemon}

omit [DecidableEq δ] in
theorem Touched.family {n : Path δ} (h : Touched path n) : n.family = path.family := by
  rcases h with rfl | ⟨e, -, rfl⟩
  · rfl
  · exact Path.family_withExtension

omit [DecidableEq δ] in
theorem Touched.ne_lock {n : Path δ} (hp : path ≠ lockPath path) (h : Touched path n) :
    n ≠ lockPath path := by
  rcases h with rfl | ⟨e, he, rfl⟩
  · exact hp
  · exact fun h => he (Path.withExtension_inj.mp h).2

theorem RewriteStep.touches {s s' : Rewrite (Path δ)} {a : RewriteAct} {buf : Bytes}
    (hs : RewriteStep path (tempPath path) hasParent buf s a s') :
    Fs.NameStep (Touched path) s.fs s'.fs :=
  hs.names.mono fun _ hn => hn.imp_right fun h => ⟨tmpExt, tmpExt_ne, h⟩

/-- **What a step does to names**: it makes the lock file, or leaves it alone. -/
theorem DaemonStep.names (hs : DaemonStep J path hasParent held fs d fs' d') :
    Fs.NameStep (Touched path) fs fs' ∨
      d = .closed ∧ fs' = (fs.create (lockPath path)).2 ∧
        d' = .locking (fs.create (lockPath path)).1 := by
  cases hs with
  | lockOpened => exact .inr ⟨rfl, rfl, rfl⟩
  | setAside now =>
      exact .inl (.rename _ _ (.inl rfl) (.inr ⟨corruptExt now, corruptExt_ne now, rfl⟩) rfl rfl)
  | repairing hw => exact .inl hw.touches
  | rewriting hw => exact .inl hw.touches
  | appending hw => exact .inl (hw.names.mono fun _ hn => .inl hn)
  | _ => exact .inl (.same rfl rfl)

theorem DaemonStep.family (hs : DaemonStep J path hasParent held fs d fs' d') :
    Fs.NameStep (fun n => n.family = path.family) fs fs' := by
  rcases hs.names with h | ⟨-, rfl, -⟩
  · exact h.mono fun _ hn => hn.family
  · exact .create _ Path.family_withExtension rfl rfl

omit [DecidableEq δ] in
/-- After it has read the file, a process has its lock and nothing else open, or has closed. -/
theorem afterRead_cases (J : SerdeJson) (lock : Nat) (r : Except IoErrorKind Text) :
    (afterRead J lock r).lock = some lock ∧ (∀ i, (afterRead J lock r).Opens i → i = lock) ∨
      afterRead J lock r = .closed := by
  have hopening : ∀ i, ¬ Rewriting.Opens .idle i (.filling .opening) := fun i h => by
    rcases h with ⟨_, h⟩ | h | ⟨_, h⟩ <;> cases h
  unfold afterRead
  split
  · split
    · exact .inl ⟨rfl, fun _ h => h⟩
    · exact .inl ⟨rfl, fun i h => h.resolve_right (hopening i)⟩
    · exact .inl ⟨rfl, fun _ h => h⟩
  · exact .inl ⟨rfl, fun _ h => h⟩
  · exact .inr rfl

/-- A file that is open was open before, or has a name of the queue's. -/
theorem DaemonStep.opens {i : Nat} (hs : DaemonStep J path hasParent held fs d fs' d')
    (h : d'.Opens i) :
    d.Opens i ∨ ∃ n : Path δ, n.family = path.family ∧ fs'.lookup n = some i := by
  have hopening : ¬ Rewriting.Opens .idle i (.filling .opening) := fun h => by
    rcases h with ⟨_, h⟩ | h | ⟨_, h⟩ <;> cases h
  cases hs with
  | lockOpened =>
      obtain rfl : i = _ := h
      exact .inr ⟨_, Path.family_withExtension, Fs.lookup_create⟩
  | locked | setAside | removesNone => exact .inl h
  | @loaded lock fails =>
      rcases afterRead_cases J lock (readToString fails ⟨fs.read path, []⟩) with ⟨-, ho⟩ | hc
      · exact .inl (ho i h)
      · rw [hc] at h
        cases h
  | repairing hw | rewriting hw =>
      rcases h with h | h
      · exact .inl (.inl h)
      · rcases hw.opens h with h | h
        · exact .inl (.inr h)
        · exact .inr ⟨_, Path.family_withExtension, h⟩
  | appending hw =>
      rcases h with h | h
      · exact .inl (.inl h)
      · rcases hw.opens h with h | h
        · exact .inl (.inr h)
        · exact .inr ⟨_, rfl, h⟩
  | evicts | removes => exact .inl (h.resolve_right hopening)
  | appends => exact .inl (h.resolve_right hopening)
  | repaired | appended | rewritten => exact .inl (.inl h)
  | notLocked | setAsideFailed | repairFailed | released | killed => cases h

/-- A lock that a process holds it held before, or took when the other did not hold it. -/
theorem DaemonStep.lock {i : Nat} (hs : DaemonStep J path hasParent held fs d fs' d')
    (h : d'.lock = some i) : d.lock = some i ∨ d = .locking i ∧ held ≠ some i := by
  cases hs with
  | locked hfree =>
      cases h
      exact .inr ⟨rfl, hfree⟩
  | @loaded lock fails =>
      rcases afterRead_cases J lock (readToString fails ⟨fs.read path, []⟩) with ⟨hl, -⟩ | hc
      · rw [hl] at h
        exact .inl h
      · rw [hc] at h
        cases h
  | lockOpened | notLocked | setAsideFailed | repairFailed | released | killed => cases h
  | _ => exact .inl h

theorem lockFile_of_lock {d : Daemon} {i : Nat} (h : d.lock = some i) : d.lockFile = some i := by
  cases d with
  | closed | locking => cases h
  | _ => exact h

/-- A lock file that a process has open it had open before, or has just opened. -/
theorem DaemonStep.lockFile {i : Nat} (hs : DaemonStep J path hasParent held fs d fs' d')
    (h : d'.lockFile = some i) : d.lockFile = some i ∨ fs'.lookup (lockPath path) = some i := by
  cases hs with
  | lockOpened =>
      cases h
      exact .inr Fs.lookup_create
  | locked hfree => exact .inl h
  | @loaded lock fails =>
      rcases afterRead_cases J lock (readToString fails ⟨fs.read path, []⟩) with ⟨hl, -⟩ | hc
      · rw [lockFile_of_lock hl] at h
        exact .inl h
      · rw [hc] at h
        cases h
  | notLocked | setAsideFailed | repairFailed | released | killed => cases h
  | _ => exact .inl h

end WavelogRelay.Queue
