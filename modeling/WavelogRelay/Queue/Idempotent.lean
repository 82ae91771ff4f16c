import WavelogRelay.Queue.Refinement

/-!
# Queue — recovery is idempotent

A start takes one of four routes through the file: there is none, every line of it parses, only
its last line does not, or an earlier one does not (`Loads`).  The third rewrites the file, the
fourth renames it aside.

* `loads_of_open`: a start without faults takes one of the four.
* `Loads.reads`: after each of them the file reads back as the entries just loaded, so a second
  start takes one of the first two routes, which `open_of_reads` shows to touch nothing.
* `Loads.replayed`: what each route leaves out of the replay.
* `open_idempotent`: both, for any bytes in the file.
-/

namespace WavelogRelay.Queue
open Library

variable {J : SerdeJson}

/-- The lines of the file that `parse_entries` reads. -/
def nonEmpty (contents : Text) : List Text := (lines contents).filter fun l => !isBlank l

/-- The routes of a start without faults, at time `now`: the entries loaded and the disk left. -/
inductive Loads (J : SerdeJson) (now : UInt64) : Disk → List Entry → Disk → Prop where
  | absent {disk : Disk} (hfile : disk.file = none) : Loads J now disk [] disk
  | clean {disk : Disk} {contents : Text} {es : List Entry}
      (hfile : disk.file = some (utf8 contents))
      (hreads : (nonEmpty contents).map J.fromStr = es.map some)
      (hparse : parseEntries J contents = some { entries := es, trailingDropped := false }) :
      Loads J now disk es disk
  | truncated {disk : Disk} {contents : Text} {es : List Entry}
      (hfile : disk.file = some (utf8 contents))
      (hreads : (nonEmpty contents).map J.fromStr = es.map some ++ [none]) :
      Loads J now disk es { disk with file := some (utf8 (encode J es)) }
  | corrupt {disk : Disk} {contents : Text} {before after : List (Option Entry)}
      (hfile : disk.file = some (utf8 contents))
      (hreads : (nonEmpty contents).map J.fromStr = before ++ none :: after) (hne : after ≠ []) :
      Loads J now disk []
        { file := none, aside := (now, utf8 contents) :: disk.aside.filter (·.1 != now) }

theorem loads_of_loadEntries {disk disk' : Disk} {now : UInt64} {es : List Entry}
    (h : loadEntries J disk { now } = (.ok es, disk')) : Loads J now disk es disk' := by
  cases hfile : disk.file with
  | none =>
      simp only [loadEntries, readToString, hfile, Bool.false_eq_true, if_false] at h
      cases h
      exact .absent hfile
  | some bytes =>
      cases htext : fromUtf8 bytes with
      | none =>
          simp only [loadEntries, readToString, hfile, htext, Bool.false_eq_true, if_false] at h
          cases h
      | some contents =>
          have hfile' : disk.file = some (utf8 contents) :=
            hfile.trans (congrArg some (fromUtf8_eq_some_iff.mp htext))
          simp only [loadEntries, readToString, hfile, htext, Bool.false_eq_true, if_false] at h
          have hparse : parseEntries J contents = parseLines J (nonEmpty contents) [] := rfl
          rcases parseLines_cases J (nonEmpty contents) [] with ⟨es', hm, hp⟩ | ⟨es', hm, hp⟩ |
            ⟨before, after, hm, hne, hp⟩
          · rw [hparse, hp] at h
            cases h
            exact .clean hfile' hm (hparse.trans hp)
          · rw [hparse, hp] at h
            cases h
            exact .truncated hfile' hm
          · rw [hparse, hp] at h
            cases h
            exact .corrupt hfile' hm hne

/-- A start that returns without faults took one of the routes. -/
theorem loads_of_open {disk disk' : Disk} {now : UInt64} {inner : Inner} {replay : Replay}
    (h : QsoQueue.open J disk { now } = (.ok (inner, replay), disk')) :
    ∃ es, Loads J now disk es disk' ∧ inner = { entries := es, nextSeq := nextSeqOf es } ∧
      replay = es.map Entry.pair := by
  simp only [QsoQueue.open, Bool.false_eq_true, if_false] at h
  cases hl : loadEntries J disk { now } with
  | mk res disk₁ =>
      rw [hl] at h
      cases res with
      | error _ => cases h
      | ok es =>
          cases h
          exact ⟨es, loads_of_loadEntries hl, rfl, rfl⟩

/-! ### What a start leaves -/

/-- The file, if there is one, reads as `es`, every line of it. -/
def Disk.Reads (J : SerdeJson) (disk : Disk) (es : List Entry) : Prop :=
  disk.file = none ∧ es = [] ∨ ∃ contents, disk.file = some (utf8 contents) ∧
    parseEntries J contents = some { entries := es, trailingDropped := false }

/-- **Each route leaves a file that reads back as what it loaded.** -/
theorem Loads.reads (hJ : J.Lawful) {disk disk' : Disk} {now : UInt64} {es : List Entry}
    (h : Loads J now disk es disk') : disk'.Reads J es := by
  cases h with
  | absent hfile => exact .inl ⟨hfile, rfl⟩
  | clean hfile _ hparse => exact .inr ⟨_, hfile, hparse⟩
  | truncated => exact .inr ⟨_, rfl, parse_encode hJ es⟩
  | corrupt => exact .inl ⟨rfl, rfl⟩

/-- A start on such a file rewrites nothing and renames nothing: how these two calls would go does
not matter. -/
theorem open_of_reads {disk : Disk} {es : List Entry} (h : disk.Reads J es)
    (rewrite : RewriteIo) (renameFails : Bool) (now : UInt64) :
    QsoQueue.open J disk { rewrite, renameFails, now } =
      (.ok ({ entries := es, nextSeq := nextSeqOf es }, es.map Entry.pair), disk) := by
  rcases h with ⟨hfile, rfl⟩ | ⟨contents, hfile, hparse⟩
  · simp [QsoQueue.open, loadEntries, readToString, hfile, Except.map]
  · simp [QsoQueue.open, loadEntries, readToString, hfile, hparse, Except.map]

/-- **What a start leaves out.**  It replays every line that parses, in order, unless a line that
is not the last does not parse; then it replays nothing and keeps the whole file aside. -/
theorem Loads.replayed {disk disk' : Disk} {now : UInt64} {es : List Entry}
    (h : Loads J now disk es disk') {contents : Text} (hc : disk.file = some (utf8 contents)) :
    es = (nonEmpty contents).filterMap J.fromStr ∧ disk'.aside = disk.aside ∨
      (∃ before line after, nonEmpty contents = before ++ line :: after ∧ after ≠ [] ∧
        J.fromStr line = none) ∧ es = [] ∧ (now, utf8 contents) ∈ disk'.aside := by
  have hsame : ∀ {t}, disk.file = some (utf8 t) → t = contents := fun ht =>
    utf8_injective (Option.some.inj (ht.symm.trans hc))
  have hfilter : (nonEmpty contents).filterMap J.fromStr =
      ((nonEmpty contents).map J.fromStr).reduceOption := by
    rw [List.reduceOption, List.filterMap_map, Function.id_comp]
  cases h with
  | absent hfile =>
      rw [hfile] at hc
      cases hc
  | clean hfile hreads =>
      obtain rfl := hsame hfile
      rw [hfilter, hreads]
      exact .inl ⟨by simp [List.reduceOption], rfl⟩
  | truncated hfile hreads =>
      obtain rfl := hsame hfile
      rw [hfilter, hreads]
      exact .inl ⟨by simp [List.reduceOption], rfl⟩
  | corrupt hfile hreads hne =>
      obtain rfl := hsame hfile
      obtain ⟨pre, rest, hsplit, -, hrest⟩ := List.map_eq_append_iff.mp hreads
      obtain ⟨line, post, rfl, hline, rfl⟩ := List.map_eq_cons_iff.mp hrest
      exact .inr ⟨⟨pre, line, post, hsplit, by simpa using hne, hline⟩, rfl, by simp⟩

/-- **Recovery is idempotent and stable.**  After a start without faults a second one gives the
same memory and replay and leaves the disk as it is, whatever a rewrite or a rename would do; and
an entry line that parses is left out of the replay only when a line that is not the last one does
not parse, and then the whole file is kept aside. -/
theorem open_idempotent (hJ : J.Lawful) {disk disk' : Disk} {now : UInt64} {inner : Inner}
    {replay : Replay} (h : QsoQueue.open J disk { now } = (.ok (inner, replay), disk')) :
    (∀ rewrite renameFails now', QsoQueue.open J disk' { rewrite, renameFails, now := now' } =
      (.ok (inner, replay), disk')) ∧
    (disk.file = none → replay = []) ∧
    ∀ contents, disk.file = some (utf8 contents) →
      replay = ((nonEmpty contents).filterMap J.fromStr).map Entry.pair ∧
          disk'.aside = disk.aside ∨
        (∃ before line after, nonEmpty contents = before ++ line :: after ∧ after ≠ [] ∧
          J.fromStr line = none) ∧ replay = [] ∧ (now, utf8 contents) ∈ disk'.aside := by
  obtain ⟨es, hl, rfl, rfl⟩ := loads_of_open h
  refine ⟨open_of_reads (hl.reads hJ), fun hnone => ?_, fun contents hc => ?_⟩
  · cases hl with
    | absent => rfl
    | clean hfile | truncated hfile | corrupt hfile =>
        rw [hnone] at hfile
        cases hfile
  · rcases hl.replayed hc with ⟨rfl, haside⟩ | ⟨hbad, rfl, hkept⟩
    · exact .inl ⟨rfl, haside⟩
    · exact .inr ⟨hbad, rfl, hkept⟩

/-- A line cut short is dropped once; the second start finds a clean file. -/
theorem open_idempotent_truncated :
    QsoQueue.open json
        { file := some (utf8 (encode json [⟨7, ['A'], 0⟩])), aside := [] } { now := 5 } =
      (.ok (⟨[⟨7, ['A'], 0⟩], 8⟩, [(7, ['A'])]),
        { file := some (utf8 (encode json [⟨7, ['A'], 0⟩])), aside := [] }) := by
  have hfirst : QsoQueue.open json
      { file := some (utf8 (encode json [⟨7, ['A'], 0⟩] ++ ['{'])), aside := [] } { now := 3 } =
        (.ok (⟨[⟨7, ['A'], 0⟩], 8⟩, [(7, ['A'])]),
          { file := some (utf8 (encode json [⟨7, ['A'], 0⟩])), aside := [] }) := by
    decide +kernel
  exact (open_idempotent json_strict.toLawful hfirst).1 .ok false 5

end WavelogRelay.Queue
