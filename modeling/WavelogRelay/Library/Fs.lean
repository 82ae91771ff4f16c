import Mathlib.Logic.Function.Basic
import WavelogRelay.Library.Text

/-!
# Library — a file system of names and inodes

A name refers to an inode, and an inode holds bytes.  An open file is its inode: a rename moves a
name and leaves the files that are open alone.

* `lookup_create_of_ne`, `lookup_rename_of_ne`: the operations leave the other names alone.
* `NameStep`: what an operation can do to the names of a set, and to no others.
* `Away`: a file that no name of a set refers to stays so, unless it is renamed into the set.
-/

namespace Library

/-- Names and inodes; the number of an inode is below `next` once it is made. -/
structure Fs (ν : Type) where
  lookup : ν → Option Nat
  data : Nat → Bytes
  next : Nat
  made : ∀ n i, lookup n = some i → i < next

namespace Fs

variable {ν : Type}

/-- No name refers to anything. -/
def empty : Fs ν := ⟨fun _ => none, fun _ => [], 0, fun _ _ h => by cases h⟩

/-- What the file of a name holds, if there is one. -/
def read (fs : Fs ν) (n : ν) : Option Bytes := (fs.lookup n).map fs.data

/-- Two names, and not of one file. -/
def Distinct (fs : Fs ν) (m n : ν) : Prop :=
  m ≠ n ∧ ∀ i, fs.lookup m = some i → fs.lookup n ≠ some i

/-- Write at the end of an open file. -/
def write (fs : Fs ν) (i : Nat) (bytes : Bytes) : Fs ν :=
  { fs with data := Function.update fs.data i (fs.data i ++ bytes) }

def truncate (fs : Fs ν) (i : Nat) : Fs ν := { fs with data := Function.update fs.data i [] }

/-! ### Writes -/

section Writes

variable {fs : Fs ν} {n : ν} {i : Nat}

@[simp] theorem lookup_write (bytes : Bytes) : (fs.write i bytes).lookup n = fs.lookup n := rfl

@[simp] theorem lookup_truncate : (fs.truncate i).lookup n = fs.lookup n := rfl

@[simp] theorem data_write (bytes : Bytes) : (fs.write i bytes).data i = fs.data i ++ bytes :=
  Function.update_self _ _ _

@[simp] theorem data_truncate : (fs.truncate i).data i = [] := Function.update_self _ _ _

theorem read_of_lookup (h : fs.lookup n = some i) : fs.read n = some (fs.data i) := by
  rw [read, h, Option.map_some]

/-- Whatever is done to the contents of one file, the names of the others read as before. -/
theorem read_update (h : fs.lookup n ≠ some i) (bytes : Bytes) :
    (fs.lookup n).map (Function.update fs.data i bytes) = fs.read n := by
  unfold read
  cases hn : fs.lookup n with
  | none => rfl
  | some j =>
      have hne : j ≠ i := fun e => h (e ▸ hn)
      exact congrArg some (Function.update_of_ne hne _ _)

theorem read_write_of_ne (h : fs.lookup n ≠ some i) (bytes : Bytes) :
    (fs.write i bytes).read n = fs.read n := read_update h _

theorem read_truncate_of_ne (h : fs.lookup n ≠ some i) : (fs.truncate i).read n = fs.read n :=
  read_update h _

end Writes

/-! ### Names -/

variable [DecidableEq ν]

/-- A new file under a name. -/
def new (fs : Fs ν) (n : ν) : Fs ν where
  lookup := Function.update fs.lookup n (some fs.next)
  data := Function.update fs.data fs.next []
  next := fs.next + 1
  made m i h := by
    by_cases hm : m = n
    · subst hm
      rw [Function.update_self] at h
      cases h
      exact Nat.lt_succ_self _
    · rw [Function.update_of_ne hm] at h
      exact Nat.lt_succ_of_lt (fs.made m i h)

/-- Open the file of a name, and create it if there is none: its inode, and what is left. -/
def create (fs : Fs ν) (n : ν) : Nat × Fs ν :=
  match fs.lookup n with
  | some i => (i, fs)
  | none => (fs.next, fs.new n)

/-- The name `b` refers to the file of `a`, and `a` to none. -/
def rename (fs : Fs ν) (a b : ν) : Fs ν where
  lookup := Function.update (Function.update fs.lookup a none) b (fs.lookup a)
  data := fs.data
  next := fs.next
  made n i h := by
    by_cases hb : n = b
    · subst hb
      rw [Function.update_self] at h
      exact fs.made a i h
    · rw [Function.update_of_ne hb] at h
      by_cases ha : n = a
      · subst ha
        rw [Function.update_self] at h
        cases h
      · rw [Function.update_of_ne ha] at h
        exact fs.made n i h

section Names

variable {fs : Fs ν} {a b m n : ν} {i : Nat}

theorem lookup_new_self : (fs.new n).lookup n = some fs.next := Function.update_self _ _ _

theorem lookup_new_of_ne (h : m ≠ n) : (fs.new n).lookup m = fs.lookup m :=
  Function.update_of_ne h _ _

@[simp] theorem lookup_create : (fs.create n).2.lookup n = some (fs.create n).1 := by
  unfold create
  cases h : fs.lookup n with
  | some i => exact h
  | none => exact lookup_new_self

theorem lookup_create_of_ne (h : m ≠ n) : (fs.create n).2.lookup m = fs.lookup m := by
  unfold create
  cases fs.lookup n with
  | some i => rfl
  | none => exact lookup_new_of_ne h

@[simp] theorem lookup_rename : (fs.rename a b).lookup b = fs.lookup a := Function.update_self _ _ _

theorem lookup_rename_from (h : a ≠ b) : (fs.rename a b).lookup a = none :=
  (Function.update_of_ne h _ _).trans (Function.update_self _ _ _)

theorem lookup_rename_of_ne (ha : m ≠ a) (hb : m ≠ b) : (fs.rename a b).lookup m = fs.lookup m :=
  (Function.update_of_ne hb _ _).trans (Function.update_of_ne ha _ _)

theorem create_of_lookup (h : fs.lookup n = some i) : fs.create n = (i, fs) := by
  rw [create, h]

/-- A file that is opened or made under a name is not that of a name for another file. -/
theorem create_ne (hne : ∀ i, fs.lookup n = some i → fs.lookup m ≠ some i) :
    fs.lookup m ≠ some (fs.create n).1 := by
  unfold create
  cases hn : fs.lookup n with
  | some i => exact hne i hn
  | none => exact fun hm => Nat.lt_irrefl _ (fs.made m _ hm)

/-- A file that is opened holds what its name read, and a new one nothing. -/
theorem data_create : (fs.create n).2.data (fs.create n).1 = (fs.read n).getD [] := by
  unfold create read
  cases fs.lookup n with
  | some i => rfl
  | none => exact Function.update_self _ _ _

theorem read_create_of_ne (h : m ≠ n) : (fs.create n).2.read m = fs.read m := by
  unfold create
  cases fs.lookup n with
  | some i => rfl
  | none =>
      have hnext : fs.lookup m ≠ some fs.next := fun hm => Nat.lt_irrefl _ (fs.made m _ hm)
      rw [read, lookup_new_of_ne h]
      exact read_update hnext []

theorem read_rename (h : fs.lookup a = some i) : (fs.rename a b).read b = some (fs.data i) :=
  read_of_lookup (lookup_rename.trans h)

end Names

/-! ### Sets of names -/

/-- What an operation on the names of `N` does to the names. -/
inductive NameStep (N : ν → Prop) (fs fs' : Fs ν) : Prop where
  | same (hlookup : fs'.lookup = fs.lookup) (hnext : fs'.next = fs.next)
  | create (n : ν) (hn : N n) (hlookup : fs'.lookup = (fs.create n).2.lookup)
      (hnext : fs'.next = (fs.create n).2.next)
  | rename (a b : ν) (ha : N a) (hb : N b) (hlookup : fs'.lookup = (fs.rename a b).lookup)
      (hnext : fs'.next = fs.next)

/-- No name of `S` refers to the file, nor will a new one. -/
structure Away (fs : Fs ν) (S : ν → Prop) (i : Nat) : Prop where
  made : i < fs.next
  names : ∀ n, S n → fs.lookup n ≠ some i

section Sets

variable {N N' S : ν → Prop} {fs fs' : Fs ν} {n : ν} {i : Nat}

namespace NameStep

theorem mono (hN : ∀ n, N n → N' n) (h : NameStep N fs fs') : NameStep N' fs fs' := by
  cases h with
  | same hl hx => exact .same hl hx
  | create n hn hl hx => exact .create n (hN n hn) hl hx
  | rename a b ha hb hl hx => exact .rename a b (hN a ha) (hN b hb) hl hx

theorem lookup (h : NameStep N fs fs') (hn : ¬ N n) : fs'.lookup n = fs.lookup n := by
  cases h with
  | same hl => rw [hl]
  | create m hm hl =>
      rw [hl]
      exact lookup_create_of_ne fun e => hn (e ▸ hm)
  | rename a b ha hb hl =>
      rw [hl]
      exact lookup_rename_of_ne (fun e => hn (e ▸ ha)) fun e => hn (e ▸ hb)

/-- A file with a name of the set had one before, or is new. -/
theorem named (h : NameStep N fs fs') (hn : N n) (hl : fs'.lookup n = some i) :
    (∃ m, N m ∧ fs.lookup m = some i) ∨ fs.next ≤ i := by
  cases h with
  | same hlook =>
      rw [hlook] at hl
      exact .inl ⟨n, hn, hl⟩
  | create m hm hlook =>
      rw [hlook] at hl
      by_cases hnm : n = m
      · subst hnm
        rw [lookup_create] at hl
        unfold Fs.create at hl
        cases hold : fs.lookup n with
        | some j => exact .inl ⟨n, hn, by rw [hold] at hl ⊢; exact hl⟩
        | none =>
            rw [hold] at hl
            exact .inr (Nat.le_of_eq (Option.some.inj hl))
      · rw [lookup_create_of_ne hnm] at hl
        exact .inl ⟨n, hn, hl⟩
  | rename a b ha hb hlook =>
      rw [hlook] at hl
      by_cases hnb : n = b
      · rw [hnb, lookup_rename] at hl
        exact .inl ⟨a, ha, hl⟩
      · by_cases hna : n = a
        · rw [hna, lookup_rename_from (hna ▸ hnb)] at hl
          cases hl
        · rw [lookup_rename_of_ne hna hnb] at hl
          exact .inl ⟨n, hn, hl⟩

/-- A new file is away from the other names. -/
theorem away_of_new (h : NameStep N fs fs') (hS : ∀ n, S n → ¬ N n) (hl : fs'.lookup n = some i)
    (hi : fs.next ≤ i) : fs'.Away S i := by
  refine ⟨fs'.made n i hl, fun m hm hlm => ?_⟩
  rw [h.lookup (hS m hm)] at hlm
  exact Nat.not_lt_of_le hi (fs.made m i hlm)

/-- **A file away from a set stays away**, when names are not renamed into the set from outside. -/
theorem away (h : NameStep N fs fs') (hN : (∀ n, N n → S n) ∨ ∀ n, N n → ¬ S n)
    (ha : fs.Away S i) : fs'.Away S i := by
  cases h with
  | same hl hx => exact ⟨hx ▸ ha.made, fun n hn => hl ▸ ha.names n hn⟩
  | create m hm hl hx =>
      have hnext : fs.next ≤ (fs.create m).2.next := by
        unfold Fs.create
        cases fs.lookup m with
        | some j => exact Nat.le_refl _
        | none => exact Nat.le_succ _
      refine ⟨hx ▸ Nat.lt_of_lt_of_le ha.made hnext, fun n hn => ?_⟩
      rw [hl]
      by_cases hnm : n = m
      · subst hnm
        rw [lookup_create]
        unfold Fs.create
        cases hlook : fs.lookup n with
        | some j => exact hlook ▸ ha.names n hn
        | none => exact fun e => Nat.ne_of_gt ha.made (Option.some.inj e)
      · rw [lookup_create_of_ne hnm]
        exact ha.names n hn
  | rename a b hNa hNb hl hx =>
      refine ⟨hx ▸ ha.made, fun n hn => ?_⟩
      rw [hl]
      by_cases hnb : n = b
      · subst hnb
        rw [lookup_rename]
        rcases hN with hN | hN
        · exact ha.names a (hN a hNa)
        · exact absurd hn (hN n hNb)
      · by_cases hna : n = a
        · subst hna
          rw [lookup_rename_from hnb]
          simp
        · rw [lookup_rename_of_ne hna hnb]
          exact ha.names n hn

end NameStep

end Sets

end Fs

end Library
