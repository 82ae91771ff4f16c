import WavelogRelay.Queue.Daemons

/-!
# Queue — one daemon per queue

The lock is on the inode of `<stem>.lock`, and a rewrite renames `<stem>.tmp` over the queue file.
When the queue file is that lock file, the rename leaves the lock on an inode without a name, and
a second process locks the new one.

* `SharedLock`: two processes with one lock file, which is no queue file, do not both hold it.
* `Separate`: two processes with two lock files have no file in common.
* `one_daemon_iff`: so two processes that hold queues are apart in every run exactly when the
  lock files differ or no queue file is a lock file.
-/

namespace WavelogRelay.Queue
open Library

inductive Side where
  | one
  | two
  deriving DecidableEq, Repr

namespace Side

def other : Side → Side
  | one => two
  | two => one

@[simp] theorem other_other (x : Side) : x.other.other = x := by cases x <;> rfl

theorem other_ne (x : Side) : x.other ≠ x := by cases x <;> simp [other]

theorem eq_or_other (x y : Side) : y = x ∨ y = x.other := by cases x <;> cases y <;> simp [other]

end Side

/-- The file system, and what the two processes have of their queues. -/
structure Daemons (δ : Type) where
  fs : Fs (Path δ)
  daemon : Side → Daemon

variable {δ : Type}

def Daemons.start (fs : Fs (Path δ)) : Daemons δ := ⟨fs, fun _ => .closed⟩

/-- The two processes have no file in common, of those they write, truncate, rename or lock, nor
has one a file open that has a name of the other's. -/
structure Apart (path : Side → Path δ) (s : Daemons δ) : Prop where
  files : ∀ m ∈ queueFiles (path .one), ∀ n ∈ queueFiles (path .two), s.fs.Distinct m n
  opened : ∀ x i, (s.daemon x).Opens i → ∀ n ∈ queueFiles (path x.other), s.fs.lookup n ≠ some i

/-- Two processes that both hold a `QsoQueue` are apart. -/
def OneDaemon (path : Side → Path δ) (s : Daemons δ) : Prop :=
  (∀ x, (s.daemon x).Holds) → Apart path s

variable [DecidableEq δ]

/-- A step of the process `x`. -/
inductive DaemonsStep (J : SerdeJson) (path : Side → Path δ) (hasParent : Side → Bool) :
    Daemons δ → Side → Daemons δ → Prop where
  | act {s : Daemons δ} {x : Side} {fs' : Fs (Path δ)} {d' : Daemon}
      (hs : DaemonStep J (path x) (hasParent x) (s.daemon x.other).lock s.fs (s.daemon x) fs' d') :
      DaemonsStep J path hasParent s x ⟨fs', Function.update s.daemon x d'⟩

variable {J : SerdeJson} {path : Side → Path δ} {hasParent : Side → Bool} {s s' : Daemons δ}
  {x : Side} {tr : List Side}

/-! ### One lock file -/

/-- A lock file that is open has its name still, and at most one process has locked it. -/
structure SharedLock (lock : Path δ) (s : Daemons δ) : Prop where
  files : ∀ x i, (s.daemon x).lockFile = some i → s.fs.lookup lock = some i
  alone : ∀ x, (s.daemon x).lock = none ∨ (s.daemon x.other).lock = none

/-- The lock file stays where it is. -/
theorem DaemonStep.lookup_lock {p : Path δ} {hp : Bool} {held : Option Nat} {fs fs' : Fs (Path δ)}
    {d d' : Daemon} {i : Nat} (hs : DaemonStep J p hp held fs d fs' d') (hne : p ≠ lockPath p)
    (h : fs.lookup (lockPath p) = some i) : fs'.lookup (lockPath p) = some i := by
  rcases hs.names with hn | ⟨-, rfl, -⟩
  · rw [hn.lookup fun ht => ht.ne_lock hne rfl]
    exact h
  · rw [Fs.create_of_lookup h]
    exact h

theorem SharedLock.step {lock : Path δ} (hlock : ∀ x, lockPath (path x) = lock)
    (hne : ∀ x, path x ≠ lock) (h : SharedLock lock s)
    (hs : DaemonsStep J path hasParent s x s') : SharedLock lock s' := by
  cases hs with
  | @act fs' d' hs =>
    have hstays : ∀ i, s.fs.lookup lock = some i → fs'.lookup lock = some i := fun i hi => by
      rw [← hlock x] at hi ⊢
      exact hs.lookup_lock (hlock x ▸ hne x) hi
    have halone : d'.lock = none ∨ (s.daemon x.other).lock = none := by
      by_contra hboth
      obtain ⟨hl, ho⟩ := not_or.mp hboth
      obtain ⟨i, hi⟩ := Option.ne_none_iff_exists'.mp hl
      obtain ⟨j, hj⟩ := Option.ne_none_iff_exists'.mp ho
      rcases hs.lock hi with hd | ⟨hd, hheld⟩
      · exact (h.alone x).elim (fun hn => by rw [hd] at hn; cases hn) ho
      · -- both inodes are the one the lock file has
        have hx := h.files x i (by rw [hd]; rfl)
        rw [h.files x.other j (lockFile_of_lock hj)] at hx
        exact hheld (hj.trans hx)
    constructor
    · intro y i hi
      rcases Side.eq_or_other x y with rfl | rfl
      · simp only [Function.update_self] at hi
        rcases hs.lockFile hi with hold | hnew
        · exact hstays i (h.files _ i hold)
        · exact hlock y ▸ hnew
      · simp only [Function.update_of_ne x.other_ne] at hi
        exact hstays i (h.files _ i hi)
    · intro y
      rcases Side.eq_or_other x y with rfl | rfl
      · simpa [Function.update_of_ne y.other_ne] using halone
      · simpa [Function.update_of_ne x.other_ne] using halone.symm

/-! ### Two lock files -/

/-- The names of a queue and its siblings. -/
def Family (p n : Path δ) : Prop := n.family = p.family

/-- A file with a name of the one queue, or that its process has open, has none of the other's. -/
structure Separate (path : Side → Path δ) (s : Daemons δ) : Prop where
  named : ∀ x n i, Family (path x) n → s.fs.lookup n = some i →
    s.fs.Away (Family (path x.other)) i
  opened : ∀ x i, (s.daemon x).Opens i → s.fs.Away (Family (path x.other)) i

theorem Separate.step (hne : (path .one).family ≠ (path .two).family) (h : Separate path s)
    (hs : DaemonsStep J path hasParent s x s') : Separate path s' := by
  cases hs with
  | @act fs' d' hs =>
    have hother : ∀ n, Family (path x.other) n → ¬ Family (path x) n := fun n ho hx => by
      have he : (path x).family = (path x.other).family := hx.symm.trans ho
      cases x with
      | one => exact hne he
      | two => exact hne he.symm
    -- what is away from a queue stays away from it
    have hkeep : ∀ y i, s.fs.Away (Family (path y)) i → fs'.Away (Family (path y)) i :=
      fun y i ha => by
        rcases Side.eq_or_other x y with rfl | rfl
        · exact hs.family.away (.inl fun _ hn => hn) ha
        · exact hs.family.away (.inr fun n hn ho => hother n ho hn) ha
    have hnamed : ∀ y n i, Family (path y) n → fs'.lookup n = some i →
        fs'.Away (Family (path y.other)) i := fun y n i hn hl => by
      rcases Side.eq_or_other x y with rfl | rfl
      · rcases hs.family.named hn hl with ⟨m, hm, hold⟩ | hnew
        · exact hkeep _ i (h.named y m i hm hold)
        · exact hs.family.away_of_new hother hl hnew
      · rw [hs.family.lookup (hother n hn)] at hl
        exact hkeep _ i (h.named _ n i hn hl)
    refine ⟨hnamed, fun y i hi => ?_⟩
    rcases Side.eq_or_other x y with rfl | rfl
    · simp only [Function.update_self] at hi
      rcases hs.opens hi with hold | ⟨n, hn, hl⟩
      · exact hkeep _ i (h.opened y i hold)
      · exact hnamed y n i hn hl
    · simp only [Function.update_of_ne x.other_ne] at hi
      exact hkeep _ i (h.opened _ i hi)

omit [DecidableEq δ] in
theorem family_of_mem {p n : Path δ} (h : n ∈ queueFiles p) : Family p n := by
  rcases List.mem_cons.mp h with rfl | h
  · rfl
  rcases List.mem_cons.mp h with rfl | h
  · exact Path.family_withExtension
  · rw [List.mem_singleton.mp h]
    exact Path.family_withExtension

omit [DecidableEq δ] in
theorem Separate.apart (hne : (path .one).family ≠ (path .two).family) (h : Separate path s) :
    Apart path s := by
  refine ⟨fun m hm n hn => ?_, fun x i hi n hn => (h.opened x i hi).names n (family_of_mem hn)⟩
  have hmn : m ≠ n := fun e =>
    hne ((family_of_mem hm).symm.trans ((congrArg Path.family e).trans (family_of_mem hn)))
  exact ⟨hmn, fun i hi => (h.named .one m i (family_of_mem hm) hi).names n (family_of_mem hn)⟩

/-! ### When two daemons are apart -/

/-- At the start no file has a name of each of two queues. -/
def NotLinked (path : Side → Path δ) (fs : Fs (Path δ)) : Prop :=
  ∀ m n i, Family (path .one) m → Family (path .two) n → fs.lookup m = some i →
    fs.lookup n = some i → m.family = n.family

/-- The two paths have two lock files, or a lock file that is neither's queue file. -/
def LockKept (path : Side → Path δ) : Prop :=
  lockPath (path .one) ≠ lockPath (path .two) ∨ ∀ x, path x ≠ lockPath (path x)

theorem holds_lock {d : Daemon} (h : d.Holds) : d.lock ≠ none := by
  cases d with
  | holding | appending | rewriting => exact Option.some_ne_none _
  | _ => cases h

omit [DecidableEq δ] in
theorem lockPath_eq_iff {p q : Path δ} : lockPath p = lockPath q ↔ p.family = q.family :=
  Path.withExtension_inj.trans (and_iff_left rfl)

omit [DecidableEq δ] in
theorem Separate.start (hne : (path .one).family ≠ (path .two).family) {fs : Fs (Path δ)}
    (hfs : NotLinked path fs) : Separate path (.start fs) := by
  have hnot : ∀ m n i, Family (path .one) m → Family (path .two) n → fs.lookup m = some i →
      fs.lookup n ≠ some i := fun m n i hm hn hl hl' =>
    hne (hm.symm.trans ((hfs m n i hm hn hl hl').trans hn))
  refine ⟨fun x n i hn hl => ⟨fs.made n i hl, fun m hm hl' => ?_⟩, fun _ _ ho => False.elim ho⟩
  cases x with
  | one => exact hnot n m i hn hm hl hl'
  | two => exact hnot m n i hm hn hl' hl

theorem one_daemon_of_lockKept (hpath : LockKept path) {fs₀ : Fs (Path δ)}
    (hfs : NotLinked path fs₀)
    (h : Run (DaemonsStep J path hasParent) Always (.start fs₀) tr s) : OneDaemon path s := by
  intro hboth
  by_cases hf : (path .one).family = (path .two).family
  · -- one lock file: they do not both hold it
    have hlock : ∀ x, lockPath (path x) = lockPath (path .one) := fun x => by
      cases x with
      | one => rfl
      | two => exact (lockPath_eq_iff.mpr hf).symm
    have hne : ∀ x, path x ≠ lockPath (path .one) := fun x => by
      rw [← hlock x]
      exact hpath.resolve_left (fun hl => hl (lockPath_eq_iff.mpr hf)) x
    have hinv : SharedLock (lockPath (path .one)) s := by
      refine h.invariant (I := fun _ => SharedLock (lockPath (path .one))) ?_ ?_
      · exact ⟨fun _ _ hl => (by cases hl), fun _ => .inl rfl⟩
      · rintro tr s x s' - ih - hs
        exact ih.step hlock hne hs
    rcases hinv.alone .one with hn | hn
    · exact absurd hn (holds_lock (hboth _))
    · exact absurd hn (holds_lock (hboth _))
  · have hinv : Separate path s := by
      refine h.invariant (I := fun _ => Separate path) ?_ ?_
      · exact .start hf hfs
      · rintro tr s x s' - ih - hs
        exact ih.step hf hs
    exact hinv.apart hf

/-! ### A lock file that is a queue file -/

/-- Some steps of one process, while the other holds `held`. -/
def DaemonSteps (J : SerdeJson) (p : Path δ) (hasParent : Bool) (held : Option Nat) :
    Fs (Path δ) × Daemon → Fs (Path δ) × Daemon → Prop :=
  Relation.ReflTransGen fun s s' => DaemonStep J p hasParent held s.1 s.2 s'.1 s'.2

variable {p : Path δ} {hp : Bool} {held : Option Nat} {fs : Fs (Path δ)}

theorem DaemonSteps.step {s : Fs (Path δ) × Daemon} {fs fs' : Fs (Path δ)} {d d' : Daemon}
    (h : DaemonSteps J p hp held s (fs, d)) (hs : DaemonStep J p hp held fs d fs' d') :
    DaemonSteps J p hp held s (fs', d') := h.tail hs

theorem DaemonSteps.filling {lock : Nat} {inner : Inner} {w w' : FileWrite (Path δ)}
    (h : WriteSteps (tempPath p) true (utf8 (encode J inner.entries)) w w') :
    DaemonSteps J p hp held (w.fs, .rewriting lock inner w.bg (.filling w.phase))
      (w'.fs, .rewriting lock inner w'.bg (.filling w'.phase)) := by
  induction h with
  | refl => exact .refl
  | tail _ hs ih =>
      obtain ⟨a, hs⟩ := hs
      exact ih.tail (.rewriting (.filling hs))

theorem DaemonSteps.appending {lock : Nat} {inner : Inner} {line : Bytes}
    {w w' : FileWrite (Path δ)} (h : WriteSteps p false line w w') :
    DaemonSteps J p hp held (w.fs, .appending lock inner line w.bg w.phase)
      (w'.fs, .appending lock inner line w'.bg w'.phase) := by
  induction h with
  | refl => exact .refl
  | tail _ hs ih =>
      obtain ⟨a, hs⟩ := hs
      exact ih.tail (.appending hs)

/-- A rewrite can go through: the name of the queue then has another file. -/
theorem rewrites (J : SerdeJson) (hp : Bool) (held : Option Nat) (lock : Nat) (inner : Inner)
    (htemp : fs.lookup (tempPath p) = none) (hpath : fs.lookup p = some lock) :
    ∃ fs' i, DaemonSteps J p hp held (fs, .rewriting lock inner .idle (.filling .opening))
        (fs', .holding lock inner) ∧
      fs'.lookup p = some i ∧ i ≠ lock ∧ fs'.read p = some (utf8 (encode J inner.entries)) ∧
        ∀ n, n ≠ p → fs.lookup n = none → fs'.lookup n = none := by
  have hne : tempPath p ≠ p := fun e => by
    rw [e, hpath] at htemp
    cases htemp
  obtain ⟨fs', hwrite, hl, hread⟩ :=
    write_through fs (tempPath p) true (utf8 (encode J inner.entries))
  have hfill : DaemonSteps J p hp held (fs, .rewriting lock inner .idle (.filling .opening))
      (fs', .rewriting lock inner .idle (.filling (.closed true))) := .filling hwrite
  have hswap := (hfill.step (.rewriting .filled)).step (.rewriting .renamed)
  have hnew : fs'.lookup (tempPath p) = some (fs.create (tempPath p)).1 := by
    rw [hl, Fs.lookup_create]
  have hdone : DaemonSteps J p hp held (fs, .rewriting lock inner .idle (.filling .opening))
      (fs'.rename (tempPath p) p, .holding lock inner) := by
    cases hp with
    | false => exact hswap.step .rewritten
    | true =>
        exact ((hswap.step (.rewriting .dirOpened)).step (.rewriting .dirSynced)).step .rewritten
  refine ⟨_, (fs.create (tempPath p)).1, hdone, Fs.lookup_rename.trans hnew, fun e => ?_, ?_, ?_⟩
  · exact Fs.create_ne (fun j hj => by rw [htemp] at hj; cases hj) (e ▸ hpath)
  · rw [Fs.read_rename hnew, ← Fs.read_of_lookup hnew, hread]
    rfl
  · intro n hn hnone
    by_cases ht : n = tempPath p
    · rw [ht]
      exact Fs.lookup_rename_from hne
    · rw [Fs.lookup_rename_of_ne ht hn, hl, Fs.lookup_create_of_ne ht, hnone]

/-- An append of one line can go through, on a file that is there. -/
theorem appends_line (J : SerdeJson) (hp : Bool) (held : Option Nat) (lock : Nat) {i : Nat}
    (hpath : fs.lookup p = some i) (adif : Text) :
    ∃ fs', DaemonSteps J p hp held (fs, .holding lock ⟨[], 1⟩)
        (fs', .holding lock (pushed ⟨[], 1⟩ adif 0)) ∧ fs'.lookup = fs.lookup := by
  obtain ⟨fs', hwrite, hl, -⟩ :=
    write_through fs p false (lineBytes J (newEntry ⟨[], 1⟩ adif 0))
  have hsteps : DaemonSteps J p hp held
      (fs, .appending lock (pushed ⟨[], 1⟩ adif 0) (lineBytes J (newEntry ⟨[], 1⟩ adif 0)) .idle
        .opening) _ := .appending hwrite
  rw [Fs.create_of_lookup hpath] at hl
  have hcall : DaemonSteps J p hp held (fs, .holding lock ⟨[], 1⟩) _ :=
    .step .refl (.appends adif 0 maxQueueLen_pos)
  exact ⟨fs', DaemonSteps.step (hcall.trans hsteps) .appended, hl⟩

/-- An open of a file that is empty, or not there. -/
theorem opens_empty (J : SerdeJson) (hp : Bool) (hheld : held ≠ some (fs.create (lockPath p)).1)
    (hread : (fs.create (lockPath p)).2.read p = none ∨
      (fs.create (lockPath p)).2.read p = some []) :
    DaemonSteps J p hp held (fs, .closed)
      ((fs.create (lockPath p)).2, .holding (fs.create (lockPath p)).1 ⟨[], 1⟩) := by
  have hload : DaemonStep J p hp held (fs.create (lockPath p)).2
      (.loading (fs.create (lockPath p)).1) _ _ := .loaded false
  have hafter : afterRead J (fs.create (lockPath p)).1
      (readToString false ⟨(fs.create (lockPath p)).2.read p, []⟩) =
        .holding (fs.create (lockPath p)).1 ⟨[], 1⟩ := by
    rcases hread with h | h <;> rw [h] <;> rfl
  rw [hafter] at hload
  have hopen : DaemonSteps J p hp held (fs, .closed) _ := .step .refl .lockOpened
  exact (hopen.step (.locked hheld)).step hload

/-- What one process can do, the two can. -/
theorem reached_steps {fs₀ fs fs' : Fs (Path δ)} {D : Side → Daemon} {d d' : Daemon}
    {tr : List Side} (h : Run (DaemonsStep J path hasParent) Always (.start fs₀) tr
      ⟨fs, Function.update D x d⟩)
    (hs : DaemonSteps J (path x) (hasParent x) (D x.other).lock (fs, d) (fs', d')) :
    ∃ tr', Run (DaemonsStep J path hasParent) Always (.start fs₀) tr'
      ⟨fs', Function.update D x d'⟩ := by
  suffices h : ∀ t : Fs (Path δ) × Daemon,
      DaemonSteps J (path x) (hasParent x) (D x.other).lock (fs, d) t →
        ∃ tr', Run (DaemonsStep J path hasParent) Always (.start fs₀) tr'
          ⟨t.1, Function.update D x t.2⟩ from h _ hs
  intro t hs
  induction hs with
  | refl => exact ⟨tr, h⟩
  | @tail t u _ hs ih =>
      obtain ⟨tr', hrun⟩ := ih
      have hstep : DaemonStep J (path x) (hasParent x)
          (Function.update D x t.2 x.other).lock t.1 (Function.update D x t.2 x) u.1 u.2 := by
        rw [Function.update_self, Function.update_of_ne x.other_ne]
        exact hs
      have hnext := hrun.extend (.act hstep) trivial
      rw [Function.update_idem] at hnext
      exact ⟨_, hnext⟩

/-- The run of one process that gives its lock file away: it opens a queue whose lock file is the
queue file, appends and removes. -/
theorem gives_lock_away (J : SerdeJson) (hp : Bool) (hself : p = lockPath p) (adif : Text) :
    ∃ fs' i j inner, DaemonSteps J p hp none (.empty, .closed) (fs', .holding i inner) ∧
      fs'.lookup p = some j ∧ j ≠ i ∧ fs'.read p = some [] ∧
        ∀ n, n ≠ p → fs'.lookup n = none := by
  have htemp : tempPath p ≠ p := fun e =>
    tmpExt_ne (Path.withExtension_inj.mp (e.trans hself)).2
  -- the first open makes the file
  have hmade : (Fs.empty.create (lockPath p)).2.lookup p =
      some (Fs.empty.create (lockPath p)).1 := by
    rw [← hself]
    exact Fs.lookup_create
  have hnone : ∀ n, n ≠ p → (Fs.empty.create (lockPath p)).2.lookup n = none := fun n hn => by
    rw [← hself]
    exact Fs.lookup_create_of_ne hn
  have hempty : (Fs.empty.create (lockPath p)).2.read p = some [] := by
    rw [← hself, Fs.read_of_lookup Fs.lookup_create, Fs.data_create]
    rfl
  have hpushed : (pushed ⟨[], 1⟩ adif 0).entries = [newEntry ⟨[], 1⟩ adif 0] := by
    have hroom : (Inner.entries ⟨[], 1⟩).length < maxQueueLen := maxQueueLen_pos
    rw [pushed_of_lt hroom]
    rfl
  have hgone : (dropped (pushed ⟨[], 1⟩ adif 0) 1).entries = [] := by
    rw [dropped, hpushed]
    simp [newEntry, Fifo.delete]
  have hopen : DaemonSteps J p hp none (.empty, .closed) _ :=
    opens_empty J hp (by simp) (.inr hempty)
  obtain ⟨fs₂, happend, hl₂⟩ := appends_line J hp none
    (Fs.empty.create (lockPath p)).1 hmade adif
  have hremove : DaemonSteps J p hp none _ (fs₂, _) := DaemonSteps.step (hopen.trans happend)
    (.removes 1 (by rw [hgone, hpushed]; simp))
  obtain ⟨fs₃, j, hrw, hj, hne, hread, hothers⟩ := rewrites J hp none
    (Fs.empty.create (lockPath p)).1 (dropped (pushed ⟨[], 1⟩ adif 0) 1)
    (by rw [hl₂]; exact hnone _ htemp) (by rw [hl₂]; exact hmade)
  refine ⟨fs₃, _, j, _, hremove.trans hrw, hj, hne, ?_, fun n hn => hothers n hn ?_⟩
  · rw [hread, hgone]
    rfl
  · rw [hl₂]
    exact hnone n hn

theorem both_hold (J : SerdeJson) (hasParent : Side → Bool)
    (hlock : lockPath (path .one) = lockPath (path .two))
    (hself : path x = lockPath (path x)) :
    ∃ tr s, Run (DaemonsStep J path hasParent) Always (.start .empty) tr s ∧
      ∀ y, (s.daemon y).Holds := by
  have hlocks : lockPath (path x.other) = path x := by
    rw [hself]
    cases x with
    | one => exact hlock.symm
    | two => exact hlock
  obtain ⟨fs, i, j, inner, hsteps, hj, hne, hread, hothers⟩ :=
    gives_lock_away (p := path x) J (hasParent x) hself ['A']
  -- the process `x`
  have hstart : Run (DaemonsStep J path hasParent) Always (.start .empty) []
      ⟨.empty, Function.update (fun _ => Daemon.closed) x .closed⟩ := by
    rw [Function.update_eq_self]
    exact .nil
  obtain ⟨tr, hrun⟩ := reached_steps hstart hsteps
  -- the other one
  have hcreate : fs.create (lockPath (path x.other)) = (j, fs) := by
    rw [hlocks]
    exact Fs.create_of_lookup hj
  have hread' : fs.read (path x.other) = none ∨ fs.read (path x.other) = some [] := by
    by_cases hp : path x.other = path x
    · exact .inr (hp ▸ hread)
    · exact .inl (congrArg (Option.map fs.data) (hothers _ hp))
  have hheld : some i ≠ some (fs.create (lockPath (path x.other))).1 := by
    rw [hcreate]
    exact fun e => hne (Option.some.inj e).symm
  have hopen := opens_empty J (hasParent x.other) hheld (by rw [hcreate]; exact hread')
  let D : Side → Daemon := Function.update (fun _ => .closed) x (.holding i inner)
  have hD : D x.other = .closed := Function.update_of_ne x.other_ne _ _
  have hDx : D x = .holding i inner := Function.update_self _ _ _
  have hrun' : Run (DaemonsStep J path hasParent) Always (.start .empty) tr
      ⟨fs, Function.update D x.other .closed⟩ := by
    rw [← hD, Function.update_eq_self]
    exact hrun
  obtain ⟨tr', hrun'⟩ := reached_steps (x := x.other) hrun' (by
    rw [Side.other_other, hDx]
    exact hopen)
  refine ⟨tr', _, hrun', fun y => ?_⟩
  rcases Side.eq_or_other x y with rfl | rfl
  · change (Function.update D y.other _ y).Holds
    rw [Function.update_of_ne y.other_ne.symm, hDx]
    trivial
  · change (Function.update D x.other _ x.other).Holds
    rw [Function.update_self]
    trivial

/-- A lock file that is a queue file is given away by the first rewrite of that queue. -/
theorem not_one_daemon (J : SerdeJson) (hasParent : Side → Bool) (hp : ¬ LockKept path) : ∃ tr s,
    Run (DaemonsStep J path hasParent) Always (.start .empty) tr s ∧ ¬ OneDaemon path s := by
  obtain ⟨hlock, hself⟩ := not_or.mp hp
  obtain ⟨x, hself⟩ := not_forall.mp hself
  obtain ⟨tr, s, hrun, hboth⟩ := both_hold J hasParent (not_not.mp hlock) (not_not.mp hself)
  refine ⟨tr, s, hrun, fun hone => ?_⟩
  -- the lock file is one of both
  have hmem : ∀ y, lockPath (path y) ∈ queueFiles (path y) := fun y => by simp [queueFiles]
  exact ((hone hboth).files _ (hmem .one) _ (hmem .two)).1 (not_not.mp hlock)

omit [DecidableEq δ] in
theorem notLinked_empty : NotLinked path .empty := fun _ _ _ _ _ hm => by cases hm

/-- **Two daemons are apart in every run exactly when the lock is kept.** -/
theorem one_daemon_iff (J : SerdeJson) (path : Side → Path δ) (hasParent : Side → Bool) :
    (∀ fs₀ : Fs (Path δ), NotLinked path fs₀ → ∀ tr s,
      Run (DaemonsStep J path hasParent) Always (.start fs₀) tr s → OneDaemon path s) ↔
        LockKept path := by
  refine ⟨fun h => ?_, fun hp fs₀ hfs tr s hrun => one_daemon_of_lockKept hp hfs hrun⟩
  by_contra hp
  obtain ⟨tr, s, hrun, hnot⟩ := not_one_daemon J hasParent hp
  exact hnot (h .empty notLinked_empty tr s hrun)

/-- `qso_queue.lock`, in some directory. -/
def lockNamed : Path Unit where
  dir := ()
  name :=
    { bytes := utf8 "qso_queue.lock".toList
      nonempty := by decide +kernel
      noDot := by decide +kernel
      noDotDot := by decide +kernel
      noSlash := by decide +kernel }

theorem lockPath_lockNamed : lockPath lockNamed = lockNamed := by decide +kernel

/-- **Two daemons on one queue**, whose path is `qso_queue.lock`. -/
theorem lock_given_away : ¬ ∀ (δ : Type) [DecidableEq δ] (J : SerdeJson), J.Strict →
    ∀ (path : Side → Path δ) (hasParent : Side → Bool) (fs₀ : Fs (Path δ)), NotLinked path fs₀ →
      ∀ tr s, Run (DaemonsStep J path hasParent) Always (.start fs₀) tr s → OneDaemon path s :=
  fun h => by
    have hp : ¬ LockKept fun _ => lockNamed := fun hp => by
      rcases hp with hp | hp
      · exact hp rfl
      · exact hp .one lockPath_lockNamed.symm
    obtain ⟨tr, s, hrun, hnot⟩ := not_one_daemon json (fun _ => true) hp
    exact hnot (h Unit json json_strict (fun _ => lockNamed) _ _ notLinked_empty tr s hrun)

end WavelogRelay.Queue
