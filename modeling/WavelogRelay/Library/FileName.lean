import WavelogRelay.Library.Text

/-!
# Library — file names and their extensions

The extension of a file name starts after its last dot, unless that dot is the first byte.  A path
is a directory, of any kind, and the name of a file in it.

* `stem_withExtension`: a name whose extension is replaced keeps its stem.
* `withExtension_inj`: two such names are equal when the stems and the extensions are.
-/

namespace Library

/-- `.` and `/`. -/
def dot : UInt8 := 0x2e

def slash : UInt8 := 0x2f

/-- A name of a file: not empty, `.` or `..`. -/
@[ext] structure FileName where
  bytes : Bytes
  nonempty : bytes ≠ []
  noDot : bytes ≠ [dot]
  noDotDot : bytes ≠ [dot, dot]
  noSlash : slash ∉ bytes
  deriving DecidableEq

/-- An extension without a dot. -/
@[ext] structure Extension where
  bytes : Bytes
  nonempty : bytes ≠ []
  noDot : dot ∉ bytes
  noSlash : slash ∉ bytes
  deriving DecidableEq

/-- An extension in Unicode. -/
def Extension.ofText (t : Text) (ht : t ≠ []) (hdot : '.' ∉ t) (hslash : '/' ∉ t) : Extension where
  bytes := utf8 t
  nonempty h := ht (utf8_injective (h.trans utf8_nil.symm))
  noDot h := hdot (mem_of_mem_utf8 (by decide) (by decide) h)
  noSlash h := hslash (mem_of_mem_utf8 (by decide) (by decide) h)

/-- What stands before the last dot, if there is one. -/
def beforeLastDot : Bytes → Option Bytes
  | [] => none
  | c :: rest =>
      match beforeLastDot rest with
      | some before => some (c :: before)
      | none => if c = dot then some [] else none

/-- `Path::file_stem`: a name that starts with its only dot has no extension. -/
def fileStem (name : Bytes) : Bytes :=
  match beforeLastDot name with
  | none | some [] => name
  | some before => before

theorem beforeLastDot_eq_none {b : Bytes} (h : dot ∉ b) : beforeLastDot b = none := by
  induction b with
  | nil => rfl
  | cons c b ih =>
      obtain ⟨hc, hb⟩ := not_or.mp (mt List.mem_cons.mpr h)
      rw [beforeLastDot, ih hb]
      exact if_neg (Ne.symm hc)

theorem beforeLastDot_append {ext : Bytes} (h : dot ∉ ext) (b : Bytes) :
    beforeLastDot (b ++ dot :: ext) = some b := by
  induction b with
  | nil =>
      rw [List.nil_append, beforeLastDot, beforeLastDot_eq_none h]
      exact if_pos rfl
  | cons c b ih => rw [List.cons_append, beforeLastDot, ih]

theorem mem_of_beforeLastDot {b before : Bytes} {x : UInt8} (h : beforeLastDot b = some before)
    (hx : x ∈ before) : x ∈ b := by
  induction b generalizing before with
  | nil => cases h
  | cons c b ih =>
      rw [beforeLastDot] at h
      cases hb : beforeLastDot b with
      | some before' =>
          rw [hb] at h
          cases h
          rcases List.mem_cons.mp hx with rfl | hx
          · exact List.mem_cons_self
          · exact List.mem_cons_of_mem _ (ih hb hx)
      | none =>
          rw [hb] at h
          by_cases hc : c = dot
          · simp only [if_pos hc, Option.some.injEq] at h
            exact absurd (h ▸ hx) List.not_mem_nil
          · simp only [if_neg hc] at h
            cases h

theorem fileStem_ne_nil {b : Bytes} (h : b ≠ []) : fileStem b ≠ [] := by
  unfold fileStem
  split
  · exact h
  · exact h
  · assumption

theorem mem_of_fileStem {b : Bytes} {x : UInt8} (hx : x ∈ fileStem b) : x ∈ b := by
  unfold fileStem at hx
  split at hx
  · exact hx
  · exact hx
  · exact mem_of_beforeLastDot (by assumption) hx

theorem fileStem_append {b ext : Bytes} (hb : b ≠ []) (h : dot ∉ ext) :
    fileStem (b ++ dot :: ext) = b := by
  rw [fileStem, beforeLastDot_append h]
  cases b with
  | nil => exact absurd rfl hb
  | cons c b => rfl

/-- A stem and an extension are too long to be `.` or `..`. -/
theorem two_lt_length {b ext : Bytes} (hb : b ≠ []) (he : ext ≠ []) :
    2 < (b ++ dot :: ext).length := by
  have hb := List.length_pos_iff.mpr hb
  have he := List.length_pos_iff.mpr he
  rw [List.length_append, List.length_cons]
  omega

namespace FileName

def stem (n : FileName) : Bytes := fileStem n.bytes

theorem stem_ne_nil (n : FileName) : n.stem ≠ [] := fileStem_ne_nil n.nonempty

/-- `Path::with_extension`, on the name of the file. -/
def withExtension (n : FileName) (ext : Extension) : FileName where
  bytes := n.stem ++ dot :: ext.bytes
  nonempty h := by
    have hlen := two_lt_length n.stem_ne_nil ext.nonempty
    rw [h] at hlen
    exact absurd hlen (by decide)
  noDot h := by
    have hlen := two_lt_length n.stem_ne_nil ext.nonempty
    rw [h] at hlen
    exact absurd hlen (by decide)
  noDotDot h := by
    have hlen := two_lt_length n.stem_ne_nil ext.nonempty
    rw [h] at hlen
    exact absurd hlen (by decide)
  noSlash h := by
    rcases List.mem_append.mp h with h | h
    · exact n.noSlash (mem_of_fileStem h)
    · rcases List.mem_cons.mp h with h | h
      · exact absurd h (by decide)
      · exact ext.noSlash h

variable {m n : FileName} {e e' : Extension}

@[simp] theorem stem_withExtension : (n.withExtension e).stem = n.stem :=
  fileStem_append n.stem_ne_nil e.noDot

theorem withExtension_inj : m.withExtension e = n.withExtension e' ↔ m.stem = n.stem ∧ e = e' := by
  constructor
  · intro h
    have hstem : m.stem = n.stem := by
      rw [← stem_withExtension (n := m) (e := e), h, stem_withExtension]
    have hb : m.stem ++ dot :: e.bytes = n.stem ++ dot :: e'.bytes := congrArg bytes h
    rw [hstem] at hb
    have htail := List.append_cancel_left hb
    exact ⟨hstem, Extension.ext (List.cons.inj htail).2⟩
  · rintro ⟨hstem, rfl⟩
    exact FileName.ext (congrArg (· ++ dot :: e.bytes) hstem)

end FileName

/-- A directory, and a name of a file in it. -/
structure Path (δ : Type) where
  dir : δ
  name : FileName
  deriving DecidableEq

namespace Path

variable {δ : Type} {p q : Path δ} {e e' : Extension}

/-- The directory and the stem: what replacing the extension keeps. -/
def family (p : Path δ) : δ × Bytes := (p.dir, p.name.stem)

def withExtension (p : Path δ) (ext : Extension) : Path δ := ⟨p.dir, p.name.withExtension ext⟩

@[simp] theorem family_withExtension : (p.withExtension e).family = p.family := by
  rw [family, withExtension, FileName.stem_withExtension, family]

theorem withExtension_inj :
    p.withExtension e = q.withExtension e' ↔ p.family = q.family ∧ e = e' := by
  simp only [withExtension, family, Path.mk.injEq, Prod.mk.injEq, FileName.withExtension_inj,
    and_assoc]

end Path

end Library
