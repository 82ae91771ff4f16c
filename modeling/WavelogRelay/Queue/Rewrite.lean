import WavelogRelay.Library.FileWrite
import WavelogRelay.Library.Runs
import WavelogRelay.Queue.Durability

/-!
# Queue — a rewrite, call by call

`rewrite_to` over a file system of names and inodes, one step for each call and for what the call
leaves to the background.  A run may end after any step, as a process may be killed there.

A `tokio::fs::File` writes in the background, and `rewrite_to` asks its last write for no result.

* `rewrite_whole`: in every run that does not rename after a failed write, the queue file holds
  its old contents or the new ones, the new ones once the rewrite has returned `Ok`, and the old
  ones, with no `Ok`, when a write failed.
* `rewrite_refines`: so what such a run returns and leaves is what `rewriteTo` says.
* `lost_last_write`: the last write of a rewrite fails, and the rewrite installs what came before.
-/

namespace WavelogRelay.Queue
open Library

/-- Where `rewrite_to` is. -/
inductive Rewriting where
  /-- The temporary file is being written. -/
  | filling (write : Writing)
  | swapping
  | openingDir
  | syncingDir
  | returned (res : Except QsoQueueError Unit)

structure Rewrite (ν : Type) where
  fs : Fs ν
  bg : Background
  phase : Rewriting

/-- The start of a rewrite. -/
def Rewrite.start {ν : Type} (fs : Fs ν) : Rewrite ν := ⟨fs, .idle, .filling .opening⟩

inductive RewriteAct where
  | write (a : WriteAct)
  /-- A call other than the rename goes through, or fails. -/
  | call
  | failed
  | renamed
  deriving DecidableEq, Repr

/-- An error of the file system. -/
def ioError {α : Type} : Except QsoQueueError α := .error (.io .other)

variable {ν : Type}

/-- A step of `rewrite_to` with the buffer `buf`, or of the background. -/
inductive RewriteStep [DecidableEq ν] (path temp : ν) (hasParent : Bool) (buf : Bytes) :
    Rewrite ν → RewriteAct → Rewrite ν → Prop where
  | filling {fs fs' : Fs ν} {bg bg' : Background} {w w' : Writing} {a : WriteAct}
      (hw : WriteStep temp true buf ⟨fs, bg, w⟩ a ⟨fs', bg', w'⟩) :
      RewriteStep path temp hasParent buf ⟨fs, bg, .filling w⟩ (.write a) ⟨fs', bg', .filling w'⟩
  | filled {fs : Fs ν} {bg : Background} :
      RewriteStep path temp hasParent buf ⟨fs, bg, .filling (.closed true)⟩ .call
        ⟨fs, bg, .swapping⟩
  | fillFailed {fs : Fs ν} {bg : Background} :
      RewriteStep path temp hasParent buf ⟨fs, bg, .filling (.closed false)⟩ .failed
        ⟨fs, bg, .returned ioError⟩
  | renamed {fs : Fs ν} {bg : Background} :
      RewriteStep path temp hasParent buf ⟨fs, bg, .swapping⟩ .renamed
        ⟨fs.rename temp path, bg, if hasParent then .openingDir else .returned (.ok ())⟩
  | renameFailed {fs : Fs ν} {bg : Background} :
      RewriteStep path temp hasParent buf ⟨fs, bg, .swapping⟩ .failed ⟨fs, bg, .returned ioError⟩
  | dirOpened {fs : Fs ν} {bg : Background} :
      RewriteStep path temp hasParent buf ⟨fs, bg, .openingDir⟩ .call ⟨fs, bg, .syncingDir⟩
  | dirOpenFailed {fs : Fs ν} {bg : Background} :
      RewriteStep path temp hasParent buf ⟨fs, bg, .openingDir⟩ .failed
        ⟨fs, bg, .returned ioError⟩
  | dirSynced {fs : Fs ν} {bg : Background} :
      RewriteStep path temp hasParent buf ⟨fs, bg, .syncingDir⟩ .call ⟨fs, bg, .returned (.ok ())⟩
  | dirSyncFailed {fs : Fs ν} {bg : Background} :
      RewriteStep path temp hasParent buf ⟨fs, bg, .syncingDir⟩ .failed
        ⟨fs, bg, .returned ioError⟩

/-- The files a rewrite has open. -/
def Rewriting.Opens (bg : Background) (i : Nat) : Rewriting → Prop
  | .filling w => w.Opens bg i
  | _ => False

/-- No rename after a write that failed. -/
def Reported (s : Rewrite ν) (a : RewriteAct) : Prop := a = .renamed → s.bg ≠ .failed

/-- The queue file after the acts `tr`: whole, and as the result and the writes say. -/
structure WholeFile (path : ν) (old : Option Bytes) (buf : Bytes) (tr : List RewriteAct)
    (s : Rewrite ν) : Prop where
  whole : s.fs.read path = old ∨ s.fs.read path = some buf
  ok : s.phase = .returned (.ok ()) → s.fs.read path = some buf
  failed : .write .writeFailed ∈ tr → s.fs.read path = old ∧ s.phase ≠ .returned (.ok ())

section Steps

variable [DecidableEq ν] {path temp : ν} {hasParent : Bool} {buf : Bytes} {s s' : Rewrite ν}
  {a : RewriteAct}

theorem RewriteStep.names (hs : RewriteStep path temp hasParent buf s a s') :
    Fs.NameStep (fun n => n = path ∨ n = temp) s.fs s'.fs := by
  cases hs with
  | filling hw => exact hw.names.mono fun _ hn => .inr hn
  | renamed => exact .rename temp path (.inr rfl) (.inl rfl) rfl rfl
  | filled | fillFailed | renameFailed | dirOpened | dirOpenFailed | dirSynced | dirSyncFailed =>
      exact .same rfl rfl

theorem RewriteStep.opens {i : Nat} (hs : RewriteStep path temp hasParent buf s a s')
    (h : s'.phase.Opens s'.bg i) : s.phase.Opens s.bg i ∨ s'.fs.lookup temp = some i := by
  cases hs with
  | filling hw => exact hw.opens h
  | renamed =>
      cases hasParent with
      | true => exact False.elim h
      | false => exact False.elim h
  | filled | fillFailed | renameFailed | dirOpened | dirOpenFailed | dirSynced | dirSyncFailed =>
      exact False.elim h

end Steps

/-! ### What every run keeps -/

/-- The queue file is new, and no write failed. -/
structure Installed (path : ν) (buf : Bytes) (tr : List RewriteAct) (s : Rewrite ν) : Prop where
  path : s.fs.read path = some buf
  writes : .write .writeFailed ∉ tr

/-- By phase, what holds after the acts `tr` of a rewrite that started on `fs₀`. -/
def RewriteInv (path temp : ν) (fs₀ : Fs ν) (buf : Bytes) (tr : List RewriteAct) (s : Rewrite ν) :
    Prop :=
  match s.phase with
  | .filling w => WriteInv temp true buf fs₀ ⟨s.fs, s.bg, w⟩ ∧
      (.write .writeFailed ∈ tr → s.bg = .failed)
  | .swapping => WriteInv temp true buf fs₀ ⟨s.fs, s.bg, .closed true⟩ ∧
      (.write .writeFailed ∈ tr → s.bg = .failed)
  | .openingDir | .syncingDir | .returned (.ok _) => Installed path buf tr s
  | .returned (.error e) =>
      e = .io .other ∧ (s.fs.read path = fs₀.read path ∨ Installed path buf tr s)

variable {path temp : ν} {hasParent : Bool} {buf : Bytes} {fs fs₀ : Fs ν} {tr : List RewriteAct}
  {s s' : Rewrite ν} {a : RewriteAct} {bg : Background} {phase phase' : Rewriting}

/-- While it is being written, the temporary file is another one than the queue file. -/
theorem WriteInv.read_other {w : Writing} (hne : fs₀.Distinct temp path)
    (h : WriteInv temp true buf fs₀ ⟨fs, bg, w⟩) : fs.read path = fs₀.read path := by
  cases w with
  | opening => rw [show fs = fs₀ from h.1]
  | writing | syncing => exact (Filled.others h path hne).2
  | closed ok =>
      cases ok with
      | true =>
          obtain ⟨_, hfill, -⟩ := h
          exact (hfill.others path hne).2
      | false => exact h.1 path hne

/-- **The rename installs the whole buffer**, when no write has failed. -/
theorem Installed.of_rename [DecidableEq ν]
    (h : WriteInv temp true buf fs₀ ⟨fs, bg, .closed true⟩) (hok : bg ≠ .failed)
    (htr : .write .writeFailed ∉ tr) : Installed path buf tr ⟨fs.rename temp path, bg, phase⟩ := by
  obtain ⟨file, hfill, hbg⟩ := h
  have hbytes := hfill.bytes hok
  have hdata : fs.data file = buf := by
    cases bg with
    | idle => simpa [Background.left, wholeFile] using hbytes
    | busy f left => exact absurd rfl (hbg f left)
    | failed => exact absurd rfl hok
  exact ⟨(Fs.read_rename hfill.named).trans (congrArg some hdata), htr⟩

theorem not_mem_snoc (h : .write .writeFailed ∉ tr) (ha : a ≠ .write .writeFailed) :
    .write .writeFailed ∉ tr ++ [a] := by
  intro hm
  rcases List.mem_append.mp hm with hm | hm
  · exact h hm
  · exact ha (List.mem_singleton.mp hm).symm

theorem Installed.next (h : Installed path buf tr ⟨fs, bg, phase⟩) (ha : a ≠ .write .writeFailed) :
    Installed path buf (tr ++ [a]) ⟨fs, bg, phase'⟩ := ⟨h.path, not_mem_snoc h.writes ha⟩

theorem RewriteInv.step [DecidableEq ν] (hne : fs₀.Distinct temp path)
    (h : RewriteInv path temp fs₀ buf tr s) (hC : Reported s a)
    (hs : RewriteStep path temp hasParent buf s a s') :
    RewriteInv path temp fs₀ buf (tr ++ [a]) s' := by
  cases hs with
  | @filling fs fs' bg bg' w w' act hw =>
      obtain ⟨hinv, hfail⟩ := h
      refine ⟨hinv.step hw, fun hm => hw.bg_failed ?_⟩
      rcases List.mem_append.mp hm with hm | hm
      · exact .inl (hfail hm)
      · exact .inr (RewriteAct.write.inj (List.mem_singleton.mp hm)).symm
  | filled =>
      obtain ⟨hinv, hfail⟩ := h
      exact ⟨hinv, fun hm => hfail (by simpa using hm)⟩
  | fillFailed => exact ⟨rfl, .inl (WriteInv.read_other hne h.1)⟩
  | renamed =>
      obtain ⟨hinv, hfail⟩ := h
      have htr := not_mem_snoc (a := .renamed) (fun hm => hC rfl (hfail hm)) (by simp)
      cases hasParent with
      | true => exact Installed.of_rename hinv (hC rfl) htr
      | false => exact Installed.of_rename hinv (hC rfl) htr
  | renameFailed => exact ⟨rfl, .inl (WriteInv.read_other hne h.1)⟩
  | dirOpened => exact Installed.next h (by simp)
  | dirOpenFailed => exact ⟨rfl, .inr (Installed.next h (by simp))⟩
  | dirSynced => exact Installed.next h (by simp)
  | dirSyncFailed => exact ⟨rfl, .inr (Installed.next h (by simp))⟩

theorem RewriteInv.run [DecidableEq ν] (hne : fs₀.Distinct temp path)
    (h : Run (RewriteStep path temp hasParent buf) Reported (.start fs₀) tr s) :
    RewriteInv path temp fs₀ buf tr s := by
  have h₀ : RewriteInv path temp fs₀ buf [] (.start fs₀) :=
    ⟨⟨rfl, rfl⟩, fun hm => absurd hm List.not_mem_nil⟩
  refine h.invariant (I := RewriteInv path temp fs₀ buf) h₀ ?_
  rintro tr s a s' - ih hC hs
  exact ih.step hne hC hs

/-! ### All or nothing -/

theorem WholeFile.of_old {old : Option Bytes} (h : s.fs.read path = old)
    (hph : s.phase ≠ .returned (.ok ())) : WholeFile path old buf tr s :=
  ⟨.inl h, fun hok => absurd hok hph, fun _ => ⟨h, hph⟩⟩

theorem WholeFile.of_installed {old : Option Bytes} (h : Installed path buf tr s) :
    WholeFile path old buf tr s := ⟨.inr h.path, fun _ => h.path, fun hw => absurd hw h.writes⟩

theorem RewriteInv.whole (hne : fs₀.Distinct temp path) (h : RewriteInv path temp fs₀ buf tr s) :
    WholeFile path (fs₀.read path) buf tr s := by
  obtain ⟨fs, bg, phase⟩ := s
  cases phase with
  | filling | swapping => exact .of_old (WriteInv.read_other hne h.1) (by simp)
  | openingDir | syncingDir => exact .of_installed h
  | returned res =>
      cases res with
      | ok => exact .of_installed h
      | error e =>
          obtain ⟨-, h | h⟩ := h
          · exact .of_old h (by simp)
          · exact .of_installed h

section

variable [DecidableEq ν] (J : SerdeJson) (entries : List Entry) (hne : fs₀.Distinct temp path)
include hne

/-- **A rewrite is all or nothing**, wherever it is stopped, in every run that does not rename
after a write failed. -/
theorem rewrite_whole
    (h : Run (RewriteStep path temp hasParent (utf8 (encode J entries))) Reported (.start fs₀)
      tr s) :
    WholeFile path (fs₀.read path) (utf8 (encode J entries)) tr s :=
  (RewriteInv.run hne h).whole hne

/-- **What such a run returns and leaves is what `rewriteTo` says.** -/
theorem rewrite_refines
    (h : Run (RewriteStep path temp hasParent (utf8 (encode J entries))) Reported (.start fs₀)
      tr s)
    {res : Except QsoQueueError Unit} (hres : s.phase = .returned res)
    (aside : List (UInt64 × Bytes)) :
    ∃ io, rewriteTo J ⟨fs₀.read path, aside⟩ entries io = (res, ⟨s.fs.read path, aside⟩) := by
  have hinv := RewriteInv.run hne h
  obtain ⟨fs, bg, phase⟩ := s
  obtain rfl : phase = .returned res := hres
  cases res with
  | ok =>
      refine ⟨.ok, ?_⟩
      rw [rewriteTo, Installed.path hinv]
  | error e =>
      obtain ⟨rfl, hold | hnew⟩ := hinv
      · exact ⟨.failsBefore, by rw [rewriteTo, ← hold]⟩
      · exact ⟨.failsAfter, by rw [rewriteTo, hnew.path]⟩

end

/-! ### A last write that fails -/

/-- The two files of a rewrite. -/
inductive Sibling where
  | queue
  | tmp
  deriving DecidableEq

/-- An empty directory but for the queue file. -/
def queueFs (contents : Bytes) : Fs Sibling := (Fs.empty.new .queue).write 0 contents

theorem queueFs_distinct (contents : Bytes) : (queueFs contents).Distinct .tmp .queue :=
  ⟨by simp, fun _ h => by cases h⟩

/-- The file system once the temporary file is open. -/
def openedFs (contents : Bytes) : Fs Sibling := ((queueFs contents).create .tmp).2.truncate 1

section

variable {C : Rewrite Sibling → RewriteAct → Prop} {buf contents : Bytes}

/-- The bytes of a rewrite are handed over at once, to be written. -/
theorem handed_over (hC : ∀ s, C s (.write .call)) (hbuf : buf ≠ []) :
    Run (RewriteStep .queue .tmp true buf) C (.start (queueFs contents))
      [.write .call, .write .call, .write .call]
      ⟨openedFs contents, .busy 1 buf, .filling (.syncing 1)⟩ := by
  have h₂ : WriteStep .tmp true buf ⟨openedFs contents, .idle, .writing 1 (buf ++ [])⟩ .call
      ⟨openedFs contents, .busy 1 buf, .writing 1 []⟩ := .handedOver hbuf
  rw [List.append_nil] at h₂
  exact ((Run.one (hC _) (.filling .opened)).extend (.filling h₂) (hC _)).extend
    (.filling .accepted) (hC _)

/-- The calls that are left when nothing is being written. -/
theorem swapped {fs : Fs Sibling} {bg : Background} (hw : ∀ s, C s (.write .call))
    (hC : ∀ s, C s .call) (hrename : C ⟨fs, bg, .swapping⟩ .renamed)
    (hbg : ∀ f left, bg ≠ .busy f left) :
    Run (RewriteStep .queue .tmp true buf) C ⟨fs, bg, .filling (.syncing 1)⟩
      [.write .call, .call, .renamed, .call, .call]
      ⟨fs.rename .tmp .queue, bg, .returned (.ok ())⟩ :=
  ((((Run.one (hw _) (.filling (.synced hbg))).extend .filled (hC _)).extend .renamed
    hrename).extend .dirOpened (hC _)).extend .dirSynced (hC _)

end

/-- A rewrite whose writes go through. -/
theorem rewrite_whole_written :
    WholeFile .queue ((queueFs (lineBytes json entryA)).read .queue) (utf8 (encode json [entryB]))
      ([.write .call, .write .call, .write .call] ++ [.write .wrote] ++
        [.write .call, .call, .renamed, .call, .call])
      ⟨((openedFs (lineBytes json entryA)).write 1 (utf8 (encode json [entryB]))).rename .tmp
        .queue, .idle, .returned (.ok ())⟩ := by
  have hbuf : utf8 (encode json [entryB]) ≠ [] := by decide +kernel
  have hwrote : WriteStep Sibling.tmp true (utf8 (encode json [entryB]))
      ⟨openedFs (lineBytes json entryA), .busy 1 (utf8 (encode json [entryB]) ++ []), .syncing 1⟩
      .wrote ⟨(openedFs (lineBytes json entryA)).write 1 (utf8 (encode json [entryB])), .idle,
        .syncing 1⟩ := .wrote
  rw [List.append_nil] at hwrote
  have hC : ∀ (s : Rewrite Sibling) a, a ≠ .renamed → Reported s a := fun _ _ ha h => absurd h ha
  exact rewrite_whole json [entryB] (queueFs_distinct _)
    (((handed_over (fun _ => hC _ _ (by simp)) hbuf).extend (.filling hwrote)
      (hC _ _ (by simp))).trans (swapped (fun _ => hC _ _ (by simp)) (fun _ => hC _ _ (by simp))
        (fun _ h => by cases h) fun _ _ hb => by cases hb))

/-- **A rewrite whose last write fails installs an empty file**, and returns `Ok`. -/
theorem lost_last_write : ¬ ∀ (ν : Type) [DecidableEq ν] (path temp : ν) (hasParent : Bool)
    (J : SerdeJson) (entries : List Entry) (fs₀ : Fs ν) (tr : List RewriteAct) (s : Rewrite ν),
    fs₀.Distinct temp path →
      Run (RewriteStep path temp hasParent (utf8 (encode J entries))) Always (.start fs₀) tr s →
        WholeFile path (fs₀.read path) (utf8 (encode J entries)) tr s := fun h => by
  have hbuf : utf8 (encode json [entryB]) ≠ [] := by decide +kernel
  have hstart : Run (RewriteStep .queue .tmp true (utf8 (encode json [entryB]))) Always
      (.start (queueFs (lineBytes json entryA))) _ _ := handed_over (fun _ => trivial) hbuf
  have hrun := (hstart.extend (.filling .writeFailed) trivial).trans
    (swapped (fun _ => trivial) (fun _ => trivial) trivial fun _ _ hb => by cases hb)
  have hok := (h _ _ _ _ _ _ _ _ _ (queueFs_distinct _) hrun).ok rfl
  exact absurd hok (by decide +kernel)

end WavelogRelay.Queue
