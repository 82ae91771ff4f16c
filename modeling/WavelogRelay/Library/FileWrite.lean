import Mathlib.Logic.Relation
import WavelogRelay.Library.Fs

/-!
# Library — a file that is written in the background

A program opens a file, writes a buffer, syncs the file and closes it.  A write returns when the
bytes are handed over, and the background brings them to the file.  That a write failed is
reported by the next one; a sync waits for the last write, and returns the result of the sync
alone.

* `WriteStep.names`, `WriteStep.opens`: what a step does to names, and which files it opens.
* `WriteInv.step`: the file and what is left to write make up the buffer until a write fails, and
  the names of other files read as before.
-/

namespace Library

/-- What the background is doing: nothing, a write to a file of which some bytes are left, or
nothing since a write failed. -/
inductive Background where
  | idle
  | busy (file : Nat) (left : Bytes)
  | failed
  deriving DecidableEq, Repr

/-- Where the program is.  Of the buffer, `rest` has not been handed over. -/
inductive Writing where
  | opening
  | writing (file : Nat) (rest : Bytes)
  | syncing (file : Nat)
  | closed (ok : Bool)
  deriving DecidableEq, Repr

structure FileWrite (ν : Type) where
  fs : Fs ν
  /-- The background, and once the file is closed what became of its last write. -/
  bg : Background
  phase : Writing

inductive WriteAct where
  /-- A call goes through, or returns an error. -/
  | call
  | failed
  /-- The background writes some bytes, or fails to. -/
  | wrote
  | writeFailed
  deriving DecidableEq, Repr

/-- What the background has still to write. -/
def Background.left : Background → Bytes
  | .busy _ left => left
  | _ => []

variable {ν : Type}

/-- Open the file of a name for writing, empty or at its end. -/
def Fs.openFile [DecidableEq ν] (fs : Fs ν) (name : ν) (truncate : Bool) : Nat × Fs ν :=
  let (file, fs) := fs.create name
  (file, if truncate then fs.truncate file else fs)

/-- A step of the program with the buffer `buf`, or of the background. -/
inductive WriteStep [DecidableEq ν] (name : ν) (truncate : Bool) (buf : Bytes) :
    FileWrite ν → WriteAct → FileWrite ν → Prop where
  | opened {fs : Fs ν} {bg : Background} :
      WriteStep name truncate buf ⟨fs, bg, .opening⟩ .call
        ⟨(fs.openFile name truncate).2, bg, .writing (fs.openFile name truncate).1 buf⟩
  | openFailed {fs : Fs ν} {bg : Background} :
      WriteStep name truncate buf ⟨fs, bg, .opening⟩ .failed ⟨fs, bg, .closed false⟩
  | handedOver {fs : Fs ν} {file : Nat} {chunk rest : Bytes} (hc : chunk ≠ []) :
      WriteStep name truncate buf ⟨fs, .idle, .writing file (chunk ++ rest)⟩ .call
        ⟨fs, .busy file chunk, .writing file rest⟩
  | reported {fs : Fs ν} {file : Nat} {rest : Bytes} (hrest : rest ≠ []) :
      WriteStep name truncate buf ⟨fs, .failed, .writing file rest⟩ .failed
        ⟨fs, .failed, .closed false⟩
  | accepted {fs : Fs ν} {bg : Background} {file : Nat} :
      WriteStep name truncate buf ⟨fs, bg, .writing file []⟩ .call ⟨fs, bg, .syncing file⟩
  | wrote {fs : Fs ν} {file : Nat} {bytes left : Bytes} {phase : Writing} :
      WriteStep name truncate buf ⟨fs, .busy file (bytes ++ left), phase⟩ .wrote
        ⟨fs.write file bytes, if left = [] then .idle else .busy file left, phase⟩
  | writeFailed {fs : Fs ν} {file : Nat} {left : Bytes} {phase : Writing} :
      WriteStep name truncate buf ⟨fs, .busy file left, phase⟩ .writeFailed ⟨fs, .failed, phase⟩
  -- the sync waits for the background, and does not ask how it went
  | synced {fs : Fs ν} {bg : Background} {file : Nat} (hbg : ∀ f left, bg ≠ .busy f left) :
      WriteStep name truncate buf ⟨fs, bg, .syncing file⟩ .call ⟨fs, bg, .closed true⟩
  | syncFailed {fs : Fs ν} {bg : Background} {file : Nat} (hbg : ∀ f left, bg ≠ .busy f left) :
      WriteStep name truncate buf ⟨fs, bg, .syncing file⟩ .failed ⟨fs, bg, .closed false⟩

variable {name m : ν} {truncate : Bool} {buf whole rest : Bytes} {fs fs₀ : Fs ν} {file : Nat}
  {s s' : FileWrite ν} {a : WriteAct} {bg : Background} {phase phase' : Writing}

/-- A failed write is not forgotten. -/
theorem WriteStep.bg_failed [DecidableEq ν] (hs : WriteStep name truncate buf s a s')
    (h : s.bg = .failed ∨ a = .writeFailed) : s'.bg = .failed := by
  cases hs with
  | handedOver | wrote => simp at h
  | reported | writeFailed => rfl
  | opened | openFailed | accepted | synced | syncFailed => simpa using h

/-! ### Names and open files -/

/-- The files the program or the background has open. -/
def Writing.Opens (phase : Writing) (bg : Background) (i : Nat) : Prop :=
  (∃ rest, phase = .writing i rest) ∨ phase = .syncing i ∨ ∃ left, bg = .busy i left

theorem Fs.openFile_names [DecidableEq ν] (fs : Fs ν) (name : ν) (truncate : Bool) :
    (fs.openFile name truncate).2.lookup = (fs.create name).2.lookup ∧
      (fs.openFile name truncate).2.next = (fs.create name).2.next := by
  cases truncate with
  | false => exact ⟨rfl, rfl⟩
  | true => exact ⟨rfl, rfl⟩

theorem WriteStep.names [DecidableEq ν] (hs : WriteStep name truncate buf s a s') :
    Fs.NameStep (· = name) s.fs s'.fs := by
  cases hs with
  | opened =>
      obtain ⟨hl, hn⟩ := Fs.openFile_names _ name truncate
      exact .create name rfl hl hn
  | openFailed | handedOver | reported | accepted | wrote | writeFailed | synced | syncFailed =>
      exact .same rfl rfl

/-- A file that is open was open before, or is the one of the name. -/
theorem WriteStep.opens [DecidableEq ν] {i : Nat} (hs : WriteStep name truncate buf s a s')
    (h : s'.phase.Opens s'.bg i) : s.phase.Opens s.bg i ∨ s'.fs.lookup name = some i := by
  cases hs with
  | @opened fs =>
      rcases h with ⟨rest, h⟩ | h | h
      · cases h
        exact .inr ((congrFun (Fs.openFile_names fs name truncate).1 name).trans Fs.lookup_create)
      · cases h
      · exact .inl (.inr (.inr h))
  | openFailed | reported | synced | syncFailed =>
      rcases h with ⟨rest, h⟩ | h | h
      · cases h
      · cases h
      · exact .inl (.inr (.inr h))
  | handedOver =>
      rcases h with ⟨rest, h⟩ | h | ⟨left, h⟩
      · cases h
        exact .inl (.inl ⟨_, rfl⟩)
      · cases h
      · cases h
        exact .inl (.inl ⟨_, rfl⟩)
  | accepted =>
      rcases h with ⟨rest, h⟩ | h | h
      · cases h
      · cases h
        exact .inl (.inl ⟨_, rfl⟩)
      · exact .inl (.inr (.inr h))
  | @wrote fs file bytes left phase =>
      rcases h with h | h | ⟨left', h⟩
      · exact .inl (.inl h)
      · exact .inl (.inr (.inl h))
      · by_cases hl : left = []
        · simp [hl] at h
        · simp only [hl, if_false, Background.busy.injEq] at h
          exact .inl (.inr (.inr ⟨bytes ++ left, by rw [h.1]⟩))
  | writeFailed =>
      rcases h with h | h | ⟨left, h⟩
      · exact .inl (.inl h)
      · exact .inl (.inr (.inl h))
      · cases h

/-! ### What the file holds -/

/-- The file is open: with what is left it makes up `whole`, unless a write has failed, and the
names of other files read as they did in `fs₀`. -/
structure Filled (name : ν) (fs₀ : Fs ν) (whole : Bytes) (s : FileWrite ν) (file : Nat)
    (rest : Bytes) : Prop where
  named : s.fs.lookup name = some file
  others : ∀ m, fs₀.Distinct name m → s.fs.lookup m ≠ some file ∧ s.fs.read m = fs₀.read m
  busy : ∀ f left, s.bg = .busy f left → f = file
  bytes : s.bg ≠ .failed → s.fs.data file ++ (s.bg.left ++ rest) = whole

/-- What a name is to hold once the buffer is written. -/
def wholeFile (fs₀ : Fs ν) (name : ν) (truncate : Bool) (buf : Bytes) : Bytes :=
  (if truncate then [] else (fs₀.read name).getD []) ++ buf

/-- By phase, what holds of a write that started on `fs₀`. -/
def WriteInv (name : ν) (truncate : Bool) (buf : Bytes) (fs₀ : Fs ν) (s : FileWrite ν) : Prop :=
  match s.phase with
  | .opening => s.fs = fs₀ ∧ s.bg = .idle
  | .writing file rest => Filled name fs₀ (wholeFile fs₀ name truncate buf) s file rest
  | .syncing file => Filled name fs₀ (wholeFile fs₀ name truncate buf) s file []
  | .closed true => ∃ file, Filled name fs₀ (wholeFile fs₀ name truncate buf) s file [] ∧
      ∀ f left, s.bg ≠ .busy f left
  | .closed false => (∀ m, fs₀.Distinct name m → s.fs.read m = fs₀.read m) ∧
      ∀ f left, s.bg ≠ .busy f left

theorem Filled.opened [DecidableEq ν] (fs : Fs ν) (name : ν) (truncate : Bool) (buf : Bytes)
    (phase : Writing) :
    Filled name fs (wholeFile fs name truncate buf)
      ⟨(fs.openFile name truncate).2, .idle, phase⟩ (fs.openFile name truncate).1 buf := by
  have hother : ∀ m, fs.Distinct name m → (fs.create name).2.lookup m ≠ some (fs.create name).1 :=
    fun m hm => by
      rw [Fs.lookup_create_of_ne hm.1.symm]
      exact Fs.create_ne hm.2
  cases truncate with
  | false =>
      refine ⟨Fs.lookup_create, fun m hm => ⟨hother m hm, Fs.read_create_of_ne hm.1.symm⟩,
        fun _ _ hb => (by cases hb), fun _ => ?_⟩
      exact congrArg (· ++ buf) Fs.data_create
  | true =>
      refine ⟨Fs.lookup_create, fun m hm => ⟨hother m hm, ?_⟩, fun _ _ hb => (by cases hb),
        fun _ => ?_⟩
      · exact (Fs.read_truncate_of_ne (hother m hm)).trans (Fs.read_create_of_ne hm.1.symm)
      · exact congrArg (· ++ buf) Fs.data_truncate

/-- A step that neither writes nor changes what is left to write. -/
theorem Filled.next (h : Filled name fs₀ whole ⟨fs, bg, phase⟩ file rest) :
    Filled name fs₀ whole ⟨fs, bg, phase'⟩ file rest := ⟨h.named, h.others, h.busy, h.bytes⟩

theorem Filled.handedOver {chunk : Bytes}
    (h : Filled name fs₀ whole ⟨fs, .idle, phase⟩ file (chunk ++ rest)) :
    Filled name fs₀ whole ⟨fs, .busy file chunk, phase'⟩ file rest := by
  refine ⟨h.named, h.others, fun f left hb => ?_, fun _ => h.bytes (by simp)⟩
  cases hb
  rfl

/-- Some of the bytes left reach the file. -/
theorem Filled.wrote {f : Nat} {bytes left : Bytes}
    (h : Filled name fs₀ whole ⟨fs, .busy f (bytes ++ left), phase⟩ file rest) :
    Filled name fs₀ whole ⟨fs.write f bytes, if left = [] then .idle else .busy f left, phase⟩
      file rest := by
  obtain rfl : f = file := h.busy _ _ rfl
  have hbytes := h.bytes (by simp)
  refine ⟨h.named, fun m hm => ⟨(h.others m hm).1, ?_⟩, fun f' l' hb => ?_, fun _ => ?_⟩
  · exact (Fs.read_write_of_ne (h.others m hm).1 _).trans (h.others m hm).2
  · by_cases hl : left = []
    · simp [hl] at hb
    · simp only [hl, if_false, Background.busy.injEq] at hb
      exact hb.1.symm
  · rw [Fs.data_write, ← hbytes]
    by_cases hl : left = []
    · simp [hl, Background.left]
    · simp [hl, Background.left]

theorem Filled.writeFailed {f : Nat} {left : Bytes}
    (h : Filled name fs₀ whole ⟨fs, .busy f left, phase⟩ file rest) :
    Filled name fs₀ whole ⟨fs, .failed, phase⟩ file rest :=
  ⟨h.named, h.others, fun _ _ hb => (by cases hb), fun hbg => absurd rfl hbg⟩

/-- While a write is pending, the file is being written or synced. -/
theorem WriteInv.busy {f : Nat} {left : Bytes}
    (h : WriteInv name truncate buf fs₀ ⟨fs, .busy f left, phase⟩) :
    (∃ file rest, phase = .writing file rest) ∨ ∃ file, phase = .syncing file := by
  cases phase with
  | opening => cases h.2
  | writing file rest => exact .inl ⟨file, rest, rfl⟩
  | syncing file => exact .inr ⟨file, rfl⟩
  | closed ok =>
      cases ok with
      | true =>
          obtain ⟨_, -, hbg⟩ := h
          exact absurd rfl (hbg f left)
      | false => exact absurd rfl (h.2 f left)

theorem WriteInv.step [DecidableEq ν] (h : WriteInv name truncate buf fs₀ s)
    (hs : WriteStep name truncate buf s a s') : WriteInv name truncate buf fs₀ s' := by
  cases hs with
  | opened =>
      obtain ⟨rfl, rfl⟩ := h
      exact Filled.opened _ _ _ _ _
  | openFailed =>
      obtain ⟨rfl, rfl⟩ := h
      exact ⟨fun _ _ => rfl, fun _ _ hb => by cases hb⟩
  | handedOver => exact Filled.handedOver h
  | reported => exact ⟨fun m hm => (Filled.others h m hm).2, fun _ _ hb => by cases hb⟩
  | accepted => exact Filled.next h
  | wrote =>
      obtain ⟨file, rest, rfl⟩ | ⟨file, rfl⟩ := h.busy
      · exact Filled.wrote h
      · exact Filled.wrote h
  | writeFailed =>
      obtain ⟨file, rest, rfl⟩ | ⟨file, rfl⟩ := h.busy
      · exact Filled.writeFailed h
      · exact Filled.writeFailed h
  | synced hbg => exact ⟨_, Filled.next h, hbg⟩
  | syncFailed hbg => exact ⟨fun m hm => (Filled.others h m hm).2, hbg⟩

/-! ### A write that goes through -/

/-- Some steps of a write. -/
def WriteSteps [DecidableEq ν] (name : ν) (truncate : Bool) (buf : Bytes) :
    FileWrite ν → FileWrite ν → Prop :=
  Relation.ReflTransGen fun s s' => ∃ a, WriteStep name truncate buf s a s'

theorem WriteInv.steps [DecidableEq ν] (h : WriteInv name truncate buf fs₀ s)
    (hs : WriteSteps name truncate buf s s') : WriteInv name truncate buf fs₀ s' := by
  induction hs with
  | refl => exact h
  | tail _ hs ih =>
      obtain ⟨a, hs⟩ := hs
      exact ih.step hs

/-- The bytes that are handed over reach the file at once. -/
theorem write_at_once [DecidableEq ν] (fs : Fs ν) (name : ν) (truncate : Bool) (buf : Bytes)
    (file : Nat) :
    ∃ fs', fs'.lookup = fs.lookup ∧
      WriteSteps name truncate buf ⟨fs, .idle, .writing file buf⟩
        ⟨fs', .idle, .writing file []⟩ := by
  by_cases hbuf : buf = []
  · exact ⟨fs, rfl, hbuf ▸ .refl⟩
  · have h₁ : WriteStep name truncate buf ⟨fs, .idle, .writing file (buf ++ [])⟩ .call
        ⟨fs, .busy file buf, .writing file []⟩ := .handedOver hbuf
    have h₂ : WriteStep name truncate buf ⟨fs, .busy file (buf ++ []), .writing file []⟩ .wrote
        ⟨fs.write file buf, .idle, .writing file []⟩ := .wrote
    rw [List.append_nil] at h₁ h₂
    exact ⟨fs.write file buf, rfl, (Relation.ReflTransGen.single ⟨_, h₁⟩).tail ⟨_, h₂⟩⟩

/-- **A write can go through**, and the file then holds the whole. -/
theorem write_through [DecidableEq ν] (fs : Fs ν) (name : ν) (truncate : Bool) (buf : Bytes) :
    ∃ fs', WriteSteps name truncate buf ⟨fs, .idle, .opening⟩ ⟨fs', .idle, .closed true⟩ ∧
      fs'.lookup = (fs.create name).2.lookup ∧
        fs'.read name = some (wholeFile fs name truncate buf) := by
  obtain ⟨fs', hl, hwrite⟩ := write_at_once (fs.openFile name truncate).2 name truncate buf
    (fs.openFile name truncate).1
  have hsteps : WriteSteps name truncate buf ⟨fs, .idle, .opening⟩ ⟨fs', .idle, .closed true⟩ :=
    (((Relation.ReflTransGen.single ⟨_, .opened⟩).trans hwrite).tail ⟨_, .accepted⟩).tail
      ⟨_, .synced fun _ _ hb => by cases hb⟩
  have hinv : WriteInv name truncate buf fs ⟨fs', .idle, .closed true⟩ :=
    WriteInv.steps (s := ⟨fs, .idle, .opening⟩) ⟨rfl, rfl⟩ hsteps
  obtain ⟨file, hfill, -⟩ := hinv
  have hbytes := hfill.bytes (by simp)
  refine ⟨fs', hsteps, hl.trans (Fs.openFile_names fs name truncate).1, ?_⟩
  rw [Fs.read_of_lookup hfill.named, ← hbytes]
  simp [Background.left]

end Library
