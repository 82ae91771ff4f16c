import WavelogRelay.Queue.Shape
import WavelogRelay.Queue.Json

/-!
# Queue — what each call does to the file, and recovery from a cut

* `rewriteTo_spec`, `appendLine_spec`, `loadEntries_spec`: one specification for each function
  that touches the disk, over the shapes of the file.
* `open_recovers_iff`: a file cut at any byte opens, with the entries whose JSON is whole,
  exactly when the cut is not inside a character.
* `open_fails_inside_char`: a cut inside a character.
-/

namespace WavelogRelay.Queue
open Library

variable {J : SerdeJson}

/-! ### The calls -/

/-- The queue file has a shape; no file has the empty one. -/
def Disk.Has (disk : Disk) (sh : FileShape J) : Prop := disk.file.getD [] = sh.bytes

theorem rewriteTo_spec (hJ : J.Lawful) {disk disk' : Disk} {es : List Entry} {io : RewriteIo}
    {res : Except QsoQueueError Unit} (h : rewriteTo J disk es io = (res, disk')) :
    disk'.aside = disk.aside ∧
      (disk'.Has (FileShape.ofEntries hJ es) ∨ disk' = disk ∧ res ≠ .ok ()) := by
  cases io <;> cases h <;> simp [Disk.Has]

/-- Some of the line reaches the file. -/
def LineIo.Writes : LineIo → Prop
  | .openFails | .writeFails 0 => False
  | _ => True

theorem appendLine_spec (hJ : J.Lawful) {disk disk' : Disk} {sh : FileShape J} {e : Entry}
    {io : LineIo} {res : Except QsoQueueError Unit} (hsh : disk.Has sh)
    (h : appendLine J disk e io = (res, disk')) :
    disk'.aside = disk.aside ∧
      ∃ n, disk'.Has (sh.write hJ e n) ∧ (res = .ok () → byteLen (J.toString e) < n) ∧
        (io.Writes ∨ n = 0) := by
  have hfull : (lineBytes J e).take (byteLen (J.toString e) + 1) = lineBytes J e :=
    List.take_of_length_le (Nat.le_of_eq (FileShape.length_lineBytes e))
  unfold Disk.Has at hsh ⊢
  simp only [FileShape.bytes_write, ← hsh]
  cases io with
  | ok =>
      cases h
      exact ⟨rfl, byteLen (J.toString e) + 1, by simp [hfull], fun _ => by omega, .inl trivial⟩
  | openFails =>
      cases h
      exact ⟨rfl, 0, by simp, nofun, .inr rfl⟩
  | writeFails n =>
      cases h
      refine ⟨rfl, n, by simp, nofun, ?_⟩
      cases n with
      | zero => exact .inr rfl
      | succ n => exact .inl trivial
  | syncFails =>
      cases h
      exact ⟨rfl, byteLen (J.toString e) + 1, by simp [hfull], nofun, .inl trivial⟩

/-- **What a start makes of the file.**  The file keeps a shape and gains nothing; of a clean one
it keeps every entry and renames nothing aside. -/
structure Loaded (disk : Disk) (sh : FileShape J) (disk' : Disk) (sh' : FileShape J) : Prop where
  has : disk'.Has sh'
  seqs : sh'.seqs.Sublist sh.seqs
  entries : sh'.entries.Sublist sh.entries
  clean : sh.Clean → sh'.Clean ∧ sh'.entries = sh.entries ∧ disk'.aside = disk.aside

theorem Loaded.same {disk : Disk} {sh : FileShape J} (hsh : disk.Has sh) :
    Loaded disk sh disk sh :=
  ⟨hsh, List.Sublist.refl _, List.Sublist.refl _, fun hc => ⟨hc, rfl, rfl⟩⟩

/-- The last line does not parse: it is dropped, and the file rewritten. -/
theorem Loaded.rewritten (hJ : J.Strict) {disk disk' : Disk} {sh : FileShape J} {es : List Entry}
    {io : RewriteIo} {res : Except QsoQueueError Unit} (hsh : disk.Has sh)
    (hreads : sh.reads = es.map some ++ [none]) (h : rewriteTo J disk es io = (res, disk')) :
    ∃ sh', Loaded disk sh disk' sh' ∧ (res = .ok () → sh'.Settled ∧ es = sh'.entries) := by
  have hentries : sh.entries = es := by
    simp [FileShape.entries, hreads, List.reduceOption]
  obtain ⟨haside, hnew | ⟨rfl, hres⟩⟩ := rewriteTo_spec hJ.toLawful h
  · have hseqs : (FileShape.ofEntries hJ.toLawful es).seqs.Sublist sh.seqs := by
      rw [FileShape.seqs_ofEntries, ← hentries]
      exact FileShape.seqs_sublist
    have hset := FileShape.settled_ofEntries hJ.toLawful es
    exact ⟨.ofEntries hJ.toLawful es,
      ⟨hnew, hseqs, by simp [hentries], fun _ => ⟨hset.clean, by simp [hentries], haside⟩⟩,
      fun _ => ⟨hset, by simp⟩⟩
  · exact ⟨sh, .same hsh, fun hok => absurd hok hres⟩

/-- An earlier line does not parse: the file is no clean one, and is renamed aside. -/
theorem Loaded.renamed {disk disk' : Disk} {sh : FileShape J} {pre post : List (Option Entry)}
    (hreads : sh.reads = pre ++ none :: post) (hpost : post ≠ [])
    (hfile : disk'.Has (FileShape.empty : FileShape J)) : Loaded disk sh disk' .empty :=
  ⟨hfile, List.nil_sublist _, List.nil_sublist _, fun hc => absurd (hc.none_last hreads) hpost⟩

/-- A file that is text. -/
theorem loadText_spec (hJ : J.Strict) {disk disk' : Disk} {sh : FileShape J} {io : OpenIo}
    {res : Except QsoQueueError (List Entry)} {t : Text} (hsh : disk.Has sh)
    (hfails : io.readFails = false) (hfile : disk.file = some (utf8 t))
    (h : loadEntries J disk io = (res, disk')) :
    ∃ sh', Loaded disk sh disk' sh' ∧ ∀ es, res = .ok es → sh'.Settled ∧ es = sh'.entries := by
  have hbytes : utf8 t = sh.bytes := by rw [← hsh, hfile]; rfl
  obtain ⟨ls, hparse, hmap⟩ := parse_shape hJ hbytes
  unfold loadEntries at h
  rw [readToString, hfails, if_neg (by simp)] at h
  simp only [hfile, fromUtf8_utf8] at h
  rw [hparse] at h
  rcases parseLines_cases J ls [] with ⟨es, hm, hp⟩ | ⟨es, hm, hp⟩ | ⟨pre, post, hm, hpost, hp⟩
  · rw [hp] at h
    cases h
    have hreads : sh.reads = es.map some := hmap.symm.trans hm
    refine ⟨sh, .same hsh, ?_⟩
    rintro es' ⟨⟩
    exact ⟨FileShape.settled_of_reads hreads, (FileShape.entries_of_reads hreads).symm⟩
  · rw [hp] at h
    simp only [List.nil_append] at h
    cases hrw : rewriteTo J disk es io.rewrite with
    | mk res₁ disk₁ =>
        rw [hrw] at h
        cases h
        obtain ⟨sh', hload, hok⟩ := Loaded.rewritten hJ hsh (hmap.symm.trans hm) hrw
        refine ⟨sh', hload, fun es' he => ?_⟩
        cases res₁ with
        | error _ => cases he
        | ok _ =>
            cases he
            exact hok rfl
  · rw [hp] at h
    simp only at h
    split at h
    · cases h
      exact ⟨sh, .same hsh, nofun⟩
    · cases h
      refine ⟨.empty, .renamed (hmap.symm.trans hm) hpost rfl, ?_⟩
      rintro es ⟨⟩
      exact ⟨FileShape.settled_empty, rfl⟩

/-- **What a start loads** is just what the file then holds. -/
theorem loadEntries_spec (hJ : J.Strict) {disk disk' : Disk} {sh : FileShape J} {io : OpenIo}
    {res : Except QsoQueueError (List Entry)} (hsh : disk.Has sh)
    (h : loadEntries J disk io = (res, disk')) :
    ∃ sh', Loaded disk sh disk' sh' ∧ ∀ es, res = .ok es → sh'.Settled ∧ es = sh'.entries := by
  cases hfails : io.readFails with
  | true =>
      rw [loadEntries, readToString, hfails, if_pos rfl] at h
      cases h
      exact ⟨sh, .same hsh, nofun⟩
  | false =>
      cases hfile : disk.file with
      | none =>
          -- no file: nothing to read, nothing to change
          rw [loadEntries, readToString, hfails, if_neg (by simp), hfile] at h
          cases h
          have hbytes : sh.bytes = [] := by rw [← hsh, hfile]; rfl
          obtain rfl := FileShape.eq_empty hbytes
          refine ⟨.empty, .same hsh, fun es he => ?_⟩
          cases he
          exact ⟨FileShape.settled_empty, rfl⟩
      | some bytes =>
          cases htext : fromUtf8 bytes with
          | none =>
              rw [loadEntries, readToString, hfails, if_neg (by simp)] at h
              simp only [hfile, htext] at h
              cases h
              exact ⟨sh, .same hsh, nofun⟩
          | some t =>
              rw [fromUtf8_eq_some_iff.mp htext] at hfile
              exact loadText_spec hJ hsh hfails hfile h

/-- `loadEntries_spec`, for the whole of `open`. -/
theorem open_spec (hJ : J.Strict) {disk disk' : Disk} {sh : FileShape J} {io : OpenIo}
    {res : Except QsoQueueError (Inner × Replay)} (hsh : disk.Has sh)
    (h : QsoQueue.open J disk io = (res, disk')) :
    ∃ sh', Loaded disk sh disk' sh' ∧ ∀ inner replay, res = .ok (inner, replay) →
      sh'.Settled ∧ inner = { entries := sh'.entries, nextSeq := nextSeqOf sh'.entries } ∧
        replay = sh'.entries.map Entry.pair := by
  unfold QsoQueue.open at h
  split at h
  · cases h
    exact ⟨sh, .same hsh, nofun⟩
  split at h
  · cases h
    exact ⟨sh, .same hsh, nofun⟩
  · cases h
    exact ⟨sh, .same hsh, nofun⟩
  · cases hl : loadEntries J disk io with
    | mk res₁ disk₁ =>
        rw [hl] at h
        cases h
        obtain ⟨sh', hload, hok⟩ := loadEntries_spec hJ hsh hl
        refine ⟨sh', hload, fun inner replay he => ?_⟩
        cases res₁ with
        | error _ => cases he
        | ok es =>
            cases he
            obtain ⟨hset, rfl⟩ := hok es rfl
            exact ⟨hset, rfl, rfl⟩

/-- A start that meets no fault fails on one thing only, a file that is no text. -/
theorem open_ok_iff (J : SerdeJson) (disk : Disk) (now : UInt64) :
    (∃ inner replay disk', QsoQueue.open J disk { now } = (.ok (inner, replay), disk')) ↔
      ∀ bytes, disk.file = some bytes → (fromUtf8 bytes).isSome := by
  simp only [QsoQueue.open, loadEntries, readToString, Bool.false_eq_true, if_false]
  cases hfile : disk.file with
  | none => simp [Except.map]
  | some bytes =>
      cases ht : fromUtf8 bytes with
      | none => simp [Except.map, ht]
      | some t =>
          simp only [Option.some.injEq, forall_eq', ht, Option.isSome_some, iff_true]
          rcases parseEntries J t with _ | ⟨es, _ | _⟩ <;> simp [Except.map, rewriteTo]

/-! ### A file cut short -/

/-- The entries whose JSON text lies within the first `k` bytes of the lines. -/
def completeWithin (J : SerdeJson) : List Entry → Nat → List Entry
  | [], _ => []
  | e :: es, k =>
      if byteLen (J.toString e) ≤ k then
        e :: completeWithin J es (k - (byteLen (J.toString e) + 1))
      else []

theorem encode_append (J : SerdeJson) (es es' : List Entry) :
    encode J (es ++ es') = encode J es ++ encode J es' := by
  simp [encode]

theorem encode_cons (J : SerdeJson) (e : Entry) (es : List Entry) :
    encode J (e :: es) = J.toString e ++ ['\n'] ++ encode J es := rfl

theorem completeWithin_zero (hJ : J.Lawful) : ∀ es, completeWithin J es 0 = []
  | [] => rfl
  | e :: _ => if_neg (Nat.not_le.mpr (hJ.byteLen_pos e))

/-- A cut is past every line, or leaves some lines and the front of the next. -/
theorem cut_cases (hJ : J.Lawful) : ∀ (es : List Entry) (k : Nat),
    (byteLen (encode J es) ≤ k ∧ completeWithin J es k = es) ∨
    ∃ done e rest n, es = done ++ e :: rest ∧ k = byteLen (encode J done) + n ∧
      n ≤ byteLen (J.toString e) ∧
      completeWithin J es k = done ++ if byteLen (J.toString e) ≤ n then [e] else []
  | [], k => .inl ⟨by simp [encode], rfl⟩
  | e :: es, k => by
      have henc : ∀ es, byteLen (encode J (e :: es)) =
          byteLen (J.toString e) + 1 + byteLen (encode J es) := fun es => by
        rw [encode_cons, byteLen_append, byteLen_append]
        rfl
      by_cases hk : k ≤ byteLen (J.toString e)
      · refine .inr ⟨[], e, es, k, rfl, by simp [encode], hk, ?_⟩
        by_cases hfull : byteLen (J.toString e) ≤ k
        · have hk₀ : k - (byteLen (J.toString e) + 1) = 0 := by omega
          simp [completeWithin, hfull, hk₀, completeWithin_zero hJ]
        · simp [completeWithin, hfull]
      · have hle : byteLen (J.toString e) ≤ k := by omega
        rcases cut_cases hJ es (k - (byteLen (J.toString e) + 1)) with ⟨hk', hc⟩ |
          ⟨done, e', rest, n, rfl, hk', hn, hc⟩
        · exact .inl ⟨by rw [henc]; omega, by simp [completeWithin, hle, hc]⟩
        · exact .inr ⟨e :: done, e', rest, n, rfl, by rw [henc]; omega, hn, by
            simp [completeWithin, hle, hc]⟩

/-- A cut file is a clean one, and its entries are the complete ones. -/
theorem exists_cut_shape (hJ : J.Lawful) (es : List Entry) (k : Nat) :
    ∃ sh : FileShape J, sh.bytes = (utf8 (encode J es)).take k ∧ sh.Clean ∧
      sh.entries = completeWithin J es k := by
  have hclean : ∀ es, (FileShape.ofEntries hJ es).Clean := fun es =>
    (FileShape.settled_ofEntries hJ es).clean
  rcases cut_cases hJ es k with ⟨hk, hc⟩ | ⟨done, e, rest, n, rfl, rfl, hn, hc⟩
  · refine ⟨.ofEntries hJ es, ?_, hclean es, by simp [hc]⟩
    rw [List.take_of_length_le (by simpa using hk), FileShape.bytes_ofEntries]
  · obtain ⟨hcl, hent⟩ := FileShape.Clean.write hJ e n (hclean done) rfl
    refine ⟨(FileShape.ofEntries hJ done).write hJ e n, ?_, hcl, by simp [hent, hc]⟩
    have hle : n ≤ (lineBytes J e).length := by rw [FileShape.length_lineBytes]; omega
    have hsplit : utf8 (encode J (done ++ e :: rest)) =
        utf8 (encode J done) ++ (lineBytes J e ++ utf8 (encode J rest)) := by
      simp [encode_append, encode_cons, lineBytes]
    rw [FileShape.bytes_write, FileShape.bytes_ofEntries, hsplit, ← length_utf8,
      List.take_length_add_append, List.take_append_of_le_length hle]

/-- What recovery promises of a start: it succeeds, renames nothing aside, and replays the entries
whose JSON text is complete within the first `k` bytes. -/
def Recovers (J : SerdeJson) (es : List Entry) (k : Nat) (disk : Disk) (now : UInt64) : Prop :=
  ∃ inner disk', QsoQueue.open J disk { now } =
      (.ok (inner, (completeWithin J es k).map Entry.pair), disk') ∧ disk'.aside = disk.aside

/-- The lines of some entries, cut after `k` bytes. -/
def cutDisk (J : SerdeJson) (es : List Entry) (k : Nat) (aside : List (UInt64 × Bytes)) : Disk where
  file := some ((utf8 (encode J es)).take k)
  aside := aside

/-- **A file cut after any number of bytes is recovered exactly when the cut is not inside a
character.** -/
theorem open_recovers_iff (hJ : J.Strict) (es : List Entry) (k : Nat)
    (aside : List (UInt64 × Bytes)) (now : UInt64) :
    Recovers J es k (cutDisk J es k aside) now ↔
      IsBoundary (encode J es) (min k (byteLen (encode J es))) := by
  rw [← fromUtf8_take_isSome_iff]
  have hok := open_ok_iff J (cutDisk J es k aside) now
  simp only [cutDisk, Option.some.injEq, forall_eq'] at hok
  rw [← hok]
  constructor
  · rintro ⟨inner, disk', h, -⟩
    exact ⟨inner, _, disk', h⟩
  · rintro ⟨inner, replay, disk', h⟩
    obtain ⟨sh, hbytes, hclean, hentries⟩ := exists_cut_shape hJ.toLawful es k
    have hsh : (cutDisk J es k aside).Has sh := hbytes.symm
    obtain ⟨sh', hload, hres⟩ := open_spec hJ hsh h
    obtain ⟨-, hent, haside⟩ := hload.clean hclean
    obtain ⟨-, -, rfl⟩ := hres inner replay rfl
    exact ⟨inner, disk', by rw [← hentries, ← hent]; exact h, haside⟩

/-- An entry whose text is `é`. -/
def accented : Entry := { seq := 1, adif := ['é'], receivedAt := 0 }

/-- A cut between the brace and the newline of a line: its entry is replayed. -/
theorem open_recovers_at_newline : Recovers json [accented] 37 (cutDisk json [accented] 37 []) 0 :=
  (open_recovers_iff json_strict [accented] 37 [] 0).mpr
    ⟨writeEntry accented, ['\n'], by decide, by decide⟩

/-- **A cut inside a character**: the file is no text, and the queue does not open. -/
theorem open_fails_inside_char :
    ¬ ∀ (J : SerdeJson), J.Strict → ∀ es k aside now,
      Recovers J es k (cutDisk J es k aside) now := fun h => by
  obtain ⟨inner, disk', hopen, -⟩ := h json json_strict [accented] 18 [] 0
  have hfail : (QsoQueue.open json (cutDisk json [accented] 18 []) { now := 0 }).1 =
      .error (.io .invalidData) := by decide +kernel
  rw [hopen] at hfail
  cases hfail

end WavelogRelay.Queue
