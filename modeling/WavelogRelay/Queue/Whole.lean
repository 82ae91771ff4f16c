import WavelogRelay.Queue.Refinement

/-!
# Queue — calls whose writes are all or nothing

When every write of a line goes through or does nothing, the file stays the lines of some entries,
whichever calls fail.  Each lemma says which entries they are after a call.
-/

namespace WavelogRelay.Queue
open Library

/-- The entries in the queue file. -/
def Disk.stored (J : SerdeJson) (disk : Disk) : List Entry :=
  match (disk.file.bind fromUtf8).bind (parseEntries J) with
  | some outcome => outcome.entries
  | none => []

/-- The write of `line` goes through, or writes nothing. -/
def LineIo.AllOrNothing (line : Bytes) : LineIo → Prop
  | .writeFails n => n = 0 ∨ line.length ≤ n
  | _ => True

variable {J : SerdeJson} {disk disk' : Disk} {es : List Entry} {inner inner' : Inner}

theorem Disk.Lists.stored (hJ : J.Lawful) (h : disk.Lists J es) : disk.stored J = es := by
  rcases h with ⟨hfile, rfl⟩ | hfile
  · simp [Disk.stored, hfile]
  · simp [Disk.stored, hfile, parse_encode hJ]

/-- **A start holds what the file lists**, or nothing when it puts the file aside. -/
theorem open_stored {io : OpenIo} {replay : Replay}
    (h : QsoQueue.open J disk io = (.ok (inner, replay), disk')) :
    inner = ⟨disk.stored J, nextSeqOf (disk.stored J)⟩ ∧
      replay = (disk.stored J).map Entry.pair := by
  have hload : ∀ entries, (loadEntries J disk io).1 = .ok entries → entries = disk.stored J := by
    intro entries he
    unfold loadEntries readToString at he
    cases hfails : io.readFails with
    | true => simp [hfails] at he
    | false =>
        cases hfile : disk.file with
        | none =>
            simp only [hfails, hfile, Bool.false_eq_true, if_false, Except.ok.injEq] at he
            simp [Disk.stored, hfile, ← he]
        | some bytes =>
            cases hu : fromUtf8 bytes with
            | none => simp [hfails, hfile, hu] at he
            | some contents =>
                cases hp : parseEntries J contents with
                | none =>
                    have hnil : disk.stored J = [] := by simp [Disk.stored, hfile, hu, hp]
                    rw [hnil]
                    cases hren : io.renameFails with
                    | true => simp [hfails, hfile, hu, hp, hren] at he
                    | false => simpa [hfails, hfile, hu, hp, hren, eq_comm] using he
                | some outcome =>
                    have hes : disk.stored J = outcome.entries := by
                      simp [Disk.stored, hfile, hu, hp]
                    rw [hes]
                    obtain ⟨es, _ | _⟩ := outcome
                    · simpa [hfails, hfile, hu, hp, eq_comm] using he
                    · simp only [hfails, hfile, hu, hp, Bool.false_eq_true, if_false] at he
                      exact eq_of_map_eq_ok he |>.symm ▸ rfl
  unfold QsoQueue.open at h
  split at h
  · cases h
  split at h
  · cases h
  · cases h
  cases hl : loadEntries J disk io with
  | mk res disk₁ =>
      rw [hl] at h hload
      cases res with
      | error e => cases h
      | ok entries =>
          cases h
          rw [← hload entries rfl]
          exact ⟨rfl, rfl⟩

/-- A shape of such a file reads as its entries. -/
theorem Disk.Lists.reads (hJ : J.Strict) {sh : FileShape J} (h : disk.Lists J es)
    (hsh : disk.Has sh) : sh.reads = es.map some := by
  obtain ⟨ls, hparse, hreads⟩ := parse_shape hJ (h.getD.symm.trans hsh)
  rw [parse_encode hJ.toLawful] at hparse
  rcases parseLines_cases J ls [] with ⟨es', hm, hp⟩ | ⟨es', hm, hp⟩ | ⟨pre, post, hm, -, hp⟩ <;>
    rw [hp] at hparse <;> cases hparse
  rw [← hreads, hm]
  simp

theorem Disk.Lists.snoc (h : disk.Lists J es) (e : Entry) :
    disk.file.getD [] ++ lineBytes J e = utf8 (encode J (es ++ [e])) := by
  rw [h.getD, encode_append, utf8_append]
  simp [encode, lineBytes]

/-- A start leaves the file as it is. -/
theorem open_lists (hJ : J.Lawful) {io : OpenIo} {res : Except QsoQueueError (Inner × Replay)}
    (hes : disk.Lists J es) (h : QsoQueue.open J disk io = (res, disk')) :
    disk' = disk ∧ ∀ inner replay, res = .ok (inner, replay) →
      inner = { entries := es, nextSeq := nextSeqOf es } ∧ replay = es.map Entry.pair := by
  have hload : loadEntries J disk io = (.error (.io .other), disk) ∨
      loadEntries J disk io = (.ok es, disk) := by
    cases hfails : io.readFails with
    | true => exact .inl (by simp [loadEntries, readToString, hfails])
    | false =>
        refine .inr ?_
        rcases hes with ⟨hfile, rfl⟩ | hfile
        · simp [loadEntries, readToString, hfails, hfile]
        · simp [loadEntries, readToString, hfails, hfile, parse_encode hJ]
  unfold QsoQueue.open at h
  split at h
  · cases h
    exact ⟨rfl, fun _ _ he => by cases he⟩
  · split at h
    · cases h
      exact ⟨rfl, fun _ _ he => by cases he⟩
    · cases h
      exact ⟨rfl, fun _ _ he => by cases he⟩
    · rcases hload with hload | hload <;> rw [hload] at h <;> cases h
      · exact ⟨rfl, fun _ _ he => by cases he⟩
      · exact ⟨rfl, by rintro _ _ ⟨⟩; exact ⟨rfl, rfl⟩⟩

theorem appendLine_lists {e : Entry} {io : LineIo} {res : Except QsoQueueError Unit}
    (hes : disk.Lists J es) (hio : io.AllOrNothing (lineBytes J e))
    (h : appendLine J disk e io = (res, disk')) :
    (disk'.Lists J es ∧ res ≠ .ok ()) ∨ disk'.Lists J (es ++ [e]) := by
  cases io with
  | ok =>
      cases h
      exact .inr (.inr (congrArg some (hes.snoc e)))
  | openFails =>
      cases h
      exact .inl ⟨hes, nofun⟩
  | writeFails n =>
      cases h
      rcases hio with rfl | hn
      · exact .inl ⟨.inr (by simp [hes.getD]), nofun⟩
      · rw [List.take_of_length_le hn]
        exact .inr (.inr (congrArg some (hes.snoc e)))
  | syncFails =>
      cases h
      exact .inr (.inr (congrArg some (hes.snoc e)))

/-- An append leaves the file as it is, adds the new entry, or writes it anew. -/
theorem append_lists {adif : Text} {io : AppendIo} {res : Except QsoQueueError UInt64}
    (hes : disk.Lists J es)
    (hio : io.line.AllOrNothing (lineBytes J (newEntry inner adif io.now)))
    (h : QsoQueue.append J inner disk adif io = (res, inner', disk')) :
    (disk'.Lists J es ∧ ∀ seq, res ≠ .ok seq) ∨
      disk'.Lists J (es ++ [newEntry inner adif io.now]) ∨ disk'.Lists J inner'.entries := by
  have hok : ∀ {r : Except QsoQueueError Unit} {seq : UInt64},
      r.map (fun _ => inner.nextSeq) = .ok seq → r = .ok () := fun {r _} he => by
    cases r <;> cases he
    rfl
  obtain ⟨rfl, -⟩ := append_memory h
  simp only [QsoQueue.append] at h
  by_cases hlen : maxQueueLen < inner.entries.length + 1
  · rw [if_pos hlen] at h
    cases hrw : io.rewrite <;> simp only [hrw, rewriteTo] at h <;> cases h
    · exact .inr (.inr (.inr rfl))
    · exact .inl ⟨hes, fun _ he => by cases he⟩
    · exact .inr (.inr (.inr rfl))
  · rw [if_neg hlen] at h
    cases hap : appendLine J disk (newEntry inner adif io.now) io.line with
    | mk res₁ disk₁ =>
        simp only [newEntry] at hap
        simp only [hap, Prod.mk.injEq] at h
        obtain ⟨rfl, -, rfl⟩ := h
        rcases appendLine_lists hes hio hap with ⟨hsame, hres⟩ | hnew
        · exact .inl ⟨hsame, fun seq he => hres (hok he)⟩
        · exact .inr (.inl hnew)

/-- A removal leaves it, or writes it anew. -/
theorem remove_lists {seq : UInt64} {io : RewriteIo} {res : Except QsoQueueError Unit}
    (h : QsoQueue.remove J inner disk seq io = (res, inner', disk')) :
    disk' = disk ∨ disk'.Lists J inner'.entries := by
  simp only [QsoQueue.remove] at h
  split at h
  · cases h
    exact .inl rfl
  · cases io <;> cases h
    · exact .inr (.inr rfl)
    · exact .inl rfl
    · exact .inr (.inr rfl)

end WavelogRelay.Queue
