import WavelogRelay.Wsjtx.Adif
import WavelogRelay.Wsjtx.Handoff

/-!
# WSJT-X — when the worker drops a spooled QSO

`handleOutcome` is what the worker does with an item once its push has returned: the log line, and
with a definitive answer the removal.  Its steps are those of the worker in the pipeline
(`handleOutcome_run`, `handleOutcome_panics`).

`DroppedExactly` is what is to hold of one item: how many POSTs it takes, and that it is removed
on a definitive answer to the last and on nothing else.

* `dropped_exactly_iff`: it holds of an item exactly when no length declared in its text ends
  inside a character, and no redirect is followed that matters.  The log line comes before the
  removal, and on such a text it panics; and what a redirect leads to is taken for the answer to
  the POST.
* `stray_item_kept`: so a replayed `<CALL:1>é` is logged by Wavelog and stays in the queue.
-/

namespace WavelogRelay.Wsjtx
open Library Queue Wavelog

/-- What the worker has done with an item: the seq that it called `remove` with, if it did, and
the queue it leaves. -/
structure Handled where
  removed : Option UInt64
  inner : Inner
  disk : Disk

/-- `remove_persisted`. -/
def removePersisted (J : SerdeJson) (seq : Option UInt64) (inner : Inner) (disk : Disk)
    (io : RewriteIo) : Handled :=
  match seq with
  | none => { removed := none, inner, disk }
  | some seq =>
      let (_, inner, disk) := QsoQueue.remove J inner disk seq io
      { removed := some seq, inner, disk }

/-- `handle_post_outcome`; no value where it panics. -/
def handleOutcome (J : SerdeJson) (res : Except WavelogError Unit) (item : QueueItem)
    (inner : Inner) (disk : Disk) (io : RewriteIo) : Option Handled :=
  (summarizeAdif item.adif).map fun _ =>
    match res with
    | .ok () | .error (.rejected _) => removePersisted J item.seq inner disk io
    | .error _ => { removed := none, inner, disk }

variable {J : SerdeJson} {W : WavelogJson} {res : Except WavelogError Unit} {item : QueueItem}
  {inner : Inner} {disk : Disk} {io : RewriteIo}

theorem handlePostOutcome_of_settles (hs : Settles res) :
    handlePostOutcome res item = match item.seq with
      | some seq => .removing seq
      | none => .idle := by
  rcases res with (_ | _ | _ | _ | _ | _) | _ <;> first | rfl | cases hs

theorem handlePostOutcome_of_not_settles (hs : ¬ Settles res) :
    handlePostOutcome res item = .idle := by
  rcases res with (_ | _ | _ | _ | _ | _) | _ <;> first | rfl | exact absurd trivial hs

theorem handleOutcome_of_settles (hs : Settles res) : handleOutcome J res item inner disk io =
    (summarizeAdif item.adif).map fun _ => removePersisted J item.seq inner disk io := by
  rcases res with (_ | _ | _ | _ | _ | _) | _ <;> first | rfl | cases hs

theorem handleOutcome_of_not_settles (hs : ¬ Settles res) :
    handleOutcome J res item inner disk io =
      (summarizeAdif item.adif).map fun _ => { removed := none, inner, disk } := by
  rcases res with (_ | _ | _ | _ | _ | _) | _ <;> first | rfl | exact absurd trivial hs

/-! ### The worker's steps -/

theorem handleOutcome_panics {p : Proc} (hw : p.worker = .finishing item res)
    (h : handleOutcome J res item p.inner disk io = none) :
    Step J W ⟨disk, some p⟩ .aborted ⟨disk, none⟩ :=
  .finishPanics hw (Option.map_eq_none_iff.mp h)

/-- **The worker's steps from the end of a push** are what `handleOutcome` says. -/
theorem handleOutcome_run {p : Proc} {h : Handled} (hw : p.worker = .finishing item res)
    (hh : handleOutcome J res item p.inner disk io = some h) :
    ∃ tr, Run (Step J W) Always ⟨disk, some p⟩ tr
        ⟨h.disk, some { p with inner := h.inner, worker := .idle }⟩ ∧
      ((∃ seq r, h.removed = some seq ∧ calls tr = [.removed seq io r]) ∨
        h.removed = none ∧ calls tr = []) := by
  obtain ⟨summary, hsum, -⟩ := Option.map_eq_some_iff.mp hh
  have hfin : Step J W ⟨disk, some p⟩ .worker
      ⟨disk, some { p with worker := handlePostOutcome res item }⟩ := .finished hw hsum
  by_cases hs : Settles res
  · rw [handleOutcome_of_settles hs, hsum] at hh
    cases hh
    rw [handlePostOutcome_of_settles hs] at hfin
    cases hseq : item.seq with
    | none =>
        rw [hseq] at hfin
        exact ⟨[.worker], .cons trivial hfin .nil, .inr ⟨rfl, rfl⟩⟩
    | some seq =>
        rw [hseq] at hfin
        exact ⟨[.worker, .removed seq io _],
          .cons trivial hfin (.cons trivial (.removed rfl rfl) .nil), .inl ⟨seq, _, rfl, rfl⟩⟩
  · rw [handleOutcome_of_not_settles hs, hsum] at hh
    cases hh
    rw [handlePostOutcome_of_not_settles hs] at hfin
    exact ⟨[.worker], .cons trivial hfin .nil, .inr ⟨rfl, rfl⟩⟩

/-! ### Dropped exactly on a definitive answer -/

/-- A 2xx answer with a body that is read and parses as a `QsoResponse`. -/
def Definitive (W : WavelogJson) (met : HttpOutcome) : Prop :=
  ∃ status body, met = .answered status (some body) ∧ isSuccess status ∧ (W.qsoResponse body).isSome

/-- The last of the POSTs made was answered so. -/
def LastDefinitive (W : WavelogJson) (posts : List HttpOutcome) : Prop :=
  ∃ init met, posts = init ++ [met] ∧ Definitive W met

/-- What all the POSTs of a push meet. -/
def allPosts (attempts : List Exchange) : List HttpOutcome := attempts.flatMap Exchange.posts

/-- The push of an item with a seq, and what the worker does after it. -/
structure DroppedExactly (J : SerdeJson) (W : WavelogJson) (item : QueueItem) (seq : UInt64)
    (station : Resolution) (attempts : List Exchange) (res : Except WavelogError Unit)
    (inner : Inner) (disk : Disk) (io : RewriteIo) : Prop where
  atMostThree : (allPosts attempts).length ≤ 3
  noStation : ∀ e, resolve W station = some (.error e) → attempts = []
  noneAfter : ∀ init met rest, allPosts attempts = init ++ met :: rest → ¬ Retried met → rest = []
  /-- The removal takes the entries with this seq, and leaves the others as they are. -/
  removed : LastDefinitive W (allPosts attempts) → handleOutcome J res item inner disk io =
    some { removed := some seq
           inner := { inner with entries := inner.entries.filter (·.seq != seq) }
           disk := (rewriteTo J disk (inner.entries.filter (·.seq != seq)) io).2 }
  kept : ¬ LastDefinitive W (allPosts attempts) →
    handleOutcome J res item inner disk io = some { removed := none, inner, disk }

/-- No redirect of a POST is followed, but that of the last to a GET without a definitive answer. -/
def Undiverted (W : WavelogJson) (attempts : List Exchange) : Prop :=
  ∀ init x rest, attempts = init ++ x :: rest → x.redirects = [] ∨
    rest = [] ∧ (∃ r rs, x.redirects = r :: rs ∧ r.repeats = false) ∧ ¬ Answered W x.last

/-- `serde_json` finds no response in an empty body, and so none in one that cannot be read. -/
theorem answered_iff (hW : W.qsoResponse [] = none) {met : HttpOutcome} :
    Answered W met ↔ Definitive W met := by
  constructor
  · rintro ⟨status, body, rfl, hs, hp⟩
    cases body with
    | none => simp [hW] at hp
    | some body => exact ⟨status, body, rfl, hs, hp⟩
  · rintro ⟨status, body, rfl, hs, hp⟩
    exact ⟨status, some body, rfl, hs, hp⟩

/-- What an attempt without a redirect meets is what it comes to. -/
theorem posts_of_direct {x : Exchange} (h : x.redirects = []) : x.posts = [x.last] := by
  rw [Exchange.posts, h, postsOf]

theorem allPosts_of_direct {attempts : List Exchange} (h : ∀ x ∈ attempts, x.redirects = []) :
    allPosts attempts = attempts.map Exchange.last := by
  induction attempts with
  | nil => rfl
  | cons x attempts ih =>
      rw [allPosts, List.flatMap_cons, posts_of_direct (h x List.mem_cons_self)]
      exact congrArg _ (ih fun y hy => h y (List.mem_cons_of_mem _ hy))

/-- A redirect is followed by no POST that repeats it, and it is no definitive answer. -/
theorem not_retried_redirect (r : Redirect) : ¬ Retried (.answered r.status none) := by
  have hlt : r.status < 500 := by cases r <;> decide
  exact UInt16.not_le.mpr hlt

theorem not_definitive_unread {status : UInt16} : ¬ Definitive W (.answered status none) := by
  rintro ⟨_, _, h, -⟩
  cases h

theorem lastDefinitive_snoc {init : List HttpOutcome} {met : HttpOutcome} :
    LastDefinitive W (init ++ [met]) ↔ Definitive W met := by
  refine ⟨?_, fun hd => ⟨init, met, rfl, hd⟩⟩
  rintro ⟨init', met', heq, hd⟩
  obtain rfl : met = met' := List.singleton_inj.mp (List.append_inj_right' heq rfl)
  exact hd

/-- What the last attempt comes to, and what its POST meets. -/
theorem Undiverted.posts {init : List Exchange} {x : Exchange} (h : Undiverted W (init ++ [x])) :
    ∃ met, allPosts (init ++ [x]) = init.map Exchange.last ++ [met] ∧
      (Definitive W met → x.last = met) ∧ (Answered W x.last → x.last = met) := by
  have hinit : allPosts init = init.map Exchange.last := by
    refine allPosts_of_direct fun y hy => ?_
    obtain ⟨before, after, rfl⟩ := List.append_of_mem hy
    refine (h before y (after ++ [x]) (by simp)).resolve_right fun hlast => ?_
    simp at hlast
  have hsplit : allPosts (init ++ [x]) = init.map Exchange.last ++ x.posts := by
    rw [allPosts, List.flatMap_append, List.flatMap_singleton]
    exact congrArg (· ++ x.posts) hinit
  rw [hsplit]
  rcases h init x [] rfl with hx | ⟨-, ⟨r, rs, hx, hr⟩, hno⟩
  · exact ⟨x.last, by rw [posts_of_direct hx], fun _ => rfl, fun _ => rfl⟩
  · refine ⟨.answered r.status none, ?_, fun hd => absurd hd not_definitive_unread,
      fun ha => absurd ha hno⟩
    rw [Exchange.posts, hx, postsOf, hr]
    rfl

/-- **Without a diversion a push settles the submission exactly on a definitive answer to its last
POST.** -/
theorem settles_iff (hW : W.qsoResponse [] = none) {station : Resolution}
    {attempts : List Exchange} (h : pushOne W station attempts = some res)
    (hdirect : Undiverted W attempts) : Settles res ↔ LastDefinitive W (allPosts attempts) := by
  obtain ⟨-, rfl, hno⟩ | ⟨-, -, init, x, rfl, -, rfl⟩ := pushOne_spec h
  · refine ⟨fun hs => absurd hs hno, ?_⟩
    rintro ⟨init, met, h, -⟩
    simp [allPosts] at h
  · obtain ⟨met, hposts, hdef, hans⟩ := hdirect.posts
    rw [doQsoPost_settles_iff, hposts, lastDefinitive_snoc]
    constructor
    · intro ha
      rw [← hans ha, ← answered_iff hW]
      exact ha
    · intro hd
      rw [hdef hd, answered_iff hW]
      exact hd

theorem removePersisted_of_mem {seq : UInt64} (hseq : ∃ e ∈ inner.entries, e.seq = seq) :
    removePersisted J (some seq) inner disk io =
      { removed := some seq
        inner := { inner with entries := inner.entries.filter (·.seq != seq) }
        disk := (rewriteTo J disk (inner.entries.filter (·.seq != seq)) io).2 } := by
  have hne : (inner.entries.filter (·.seq != seq)).length ≠ inner.entries.length := by
    obtain ⟨e, he, rfl⟩ := hseq
    rw [ne_eq, List.length_filter_eq_length_iff]
    intro h
    simpa using h e he
  simp only [removePersisted, QsoQueue.remove, hne, if_false]

/-- What is to hold does, of an item whose log line can be written. -/
theorem droppedExactly_of_summary (hW : W.qsoResponse [] = none) {seq : UInt64}
    (hitem : item.seq = some seq) {summary : AdifSummary}
    (hsum : summarizeAdif item.adif = some summary) {station : Resolution}
    {attempts : List Exchange} (h : pushOne W station attempts = some res)
    (hseq : ∃ e ∈ inner.entries, e.seq = seq) (hdirect : Undiverted W attempts) :
    DroppedExactly J W item seq station attempts res inner disk io where
  atMostThree := by
    obtain ⟨-, rfl, -⟩ | ⟨-, hlen, init, x, rfl, -, -⟩ := pushOne_spec h
    · exact Nat.zero_le 3
    · obtain ⟨met, hposts, -⟩ := hdirect.posts
      simpa [hposts] using hlen
  noStation e he := by
    obtain ⟨-, rfl, -⟩ | ⟨⟨id, hid⟩, -⟩ := pushOne_spec h
    · rfl
    · rw [he] at hid
      cases hid
  noneAfter init met rest heq hmet := by
    obtain ⟨-, rfl, -⟩ | ⟨-, -, before, x, rfl, hbefore, -⟩ := pushOne_spec h
    · simp [allPosts] at heq
    · obtain ⟨met', hposts, -⟩ := hdirect.posts
      rcases List.eq_nil_or_concat rest with rfl | ⟨rest, last', rfl⟩
      · rfl
      · have heq : before.map Exchange.last ++ [met'] = (init ++ met :: rest) ++ [last'] := by
          simpa [hposts] using heq
        have hb : before.map Exchange.last = init ++ met :: rest := List.append_inj_left' heq rfl
        have hmem : met ∈ before.map Exchange.last := by simp [hb]
        obtain ⟨y, hy, rfl⟩ := List.mem_map.mp hmem
        exact absurd (hbefore y hy) hmet
  removed hd := by
    rw [handleOutcome_of_settles ((settles_iff hW h hdirect).mpr hd), hsum, hitem]
    exact congrArg some (removePersisted_of_mem hseq)
  kept hd := by
    rw [handleOutcome_of_not_settles fun hs => hd ((settles_iff hW h hdirect).mp hs), hsum]
    rfl

/-- Where it holds, the log line can be written. -/
theorem DroppedExactly.summary {seq : UInt64} {station : Resolution} {attempts : List Exchange}
    (h : DroppedExactly J W item seq station attempts res inner disk io) :
    summarizeAdif item.adif ≠ none := by
  intro hnone
  have hpanics : handleOutcome J res item inner disk io = none := Option.map_eq_none_iff.mpr hnone
  by_cases hd : LastDefinitive W (allPosts attempts)
  · cases hpanics.symm.trans (h.removed hd)
  · cases hpanics.symm.trans (h.kept hd)

/-- Where it holds, nothing is diverted. -/
theorem DroppedExactly.undiverted {seq : UInt64} (hitem : item.seq = some seq)
    (hseq : ∃ e ∈ inner.entries, e.seq = seq) {station : Resolution} {attempts : List Exchange}
    (hpush : pushOne W station attempts = some res)
    (h : DroppedExactly J W item seq station attempts res inner disk io) :
    Undiverted W attempts := by
  rintro init x rest rfl
  cases hx : x.redirects with
  | nil => exact .inl rfl
  | cons r rs =>
      refine .inr ?_
      -- the answer to its first POST is the last answer to a POST
      have hfirst : allPosts (init ++ x :: rest) = allPosts init ++ .answered r.status none ::
          ((if r.repeats then postsOf rs x.last else []) ++ allPosts rest) := by
        rw [allPosts, List.flatMap_append, List.flatMap_cons, Exchange.posts, hx]
        rfl
      have hlast := h.noneAfter _ _ _ hfirst (not_retried_redirect r)
      obtain ⟨hgets, hrest⟩ := List.append_eq_nil_iff.mp hlast
      have hr : r.repeats = false := by
        by_contra hne
        rw [if_pos (by simpa using hne)] at hgets
        exact postsOf_ne_nil _ _ hgets
      obtain rfl : rest = [] := by
        cases rest with
        | nil => rfl
        | cons y rest =>
            rw [allPosts, List.flatMap_cons] at hrest
            exact absurd (List.append_eq_nil_iff.mp hrest).1 (postsOf_ne_nil _ _)
      refine ⟨rfl, ⟨r, rs, rfl, hr⟩, fun hans => ?_⟩
      -- so the item is kept, and not removed
      have hnot : ¬ LastDefinitive W (allPosts (init ++ [x])) := by
        rw [hfirst, hlast, lastDefinitive_snoc]
        exact not_definitive_unread
      have hsettles : Settles res := by
        obtain ⟨-, hnil, -⟩ | ⟨-, -, init', x', heq, -, rfl⟩ := pushOne_spec hpush
        · simp at hnil
        · obtain rfl : x = x' := List.singleton_inj.mp (List.append_inj_right' heq rfl)
          exact doQsoPost_settles_iff.mpr hans
      have hkept := h.kept hnot
      obtain ⟨summary, hsum⟩ := Option.ne_none_iff_exists'.mp h.summary
      rw [handleOutcome_of_settles hsettles, hsum, hitem] at hkept
      have hremoved : (removePersisted J (some seq) inner disk io).removed = some seq :=
        congrArg Handled.removed (removePersisted_of_mem hseq)
      cases hremoved.symm.trans (congrArg Handled.removed (Option.some.inj hkept))

/-- **A spooled QSO is dropped exactly on a definitive answer**, when and only when no declared
length in its text that the log line follows ends inside a character, and no POST is diverted.
Whatever its attempts meet, its push returns. -/
theorem dropped_exactly_iff (hW : W.qsoResponse [] = none) (text : RustStr) (seq : UInt64) :
    (∀ (station : Resolution) (outs : List Exchange), resolve W station ≠ none →
      3 ≤ outs.length → ∃ n res, pushOne W station (outs.take n) = some res) ∧
    ∀ (J : SerdeJson) (station : Resolution) (attempts : List Exchange)
      (res : Except WavelogError Unit) (inner : Inner) (disk : Disk) (io : RewriteIo),
      pushOne W station attempts = some res → (∃ e ∈ inner.entries, e.seq = seq) →
        (DroppedExactly J W ⟨some seq, text.text⟩ seq station attempts res inner disk io ↔
          (∀ name ∈ lookedUp, ¬ Strays name text.text) ∧ Undiverted W attempts) := by
  have hsum := summarizeAdif_panics_iff (Nat.le_trans text.len_le (by decide))
  refine ⟨fun _ _ hs hlen => pushOne_total hs hlen, ?_⟩
  intro J station attempts res inner disk io hpush hseq
  constructor
  · intro h
    refine ⟨fun name hname hstray => ?_, h.undiverted rfl hseq hpush⟩
    exact h.summary (hsum.mpr ⟨name, hname, hstray⟩)
  · rintro ⟨hno, hdirect⟩
    cases hs : summarizeAdif text.text with
    | none =>
        obtain ⟨name, hname, hstray⟩ := hsum.mp hs
        exact absurd hstray (hno name hname)
    | some summary => exact droppedExactly_of_summary hW rfl hs hpush hseq hdirect

/-- `<CALL:1>A`, created by Wavelog. -/
theorem created_item_dropped : DroppedExactly json createdJson ⟨some 1, adifA⟩ 1 (.fixed ['1'])
    [createdAnswer] (.ok ()) ⟨[⟨1, adifA, 0⟩], 2⟩ ⟨none, []⟩ .ok := by
  have hlen : byteLen adifA ≤ usizeMax / 2 := by decide
  have hsum := summarizeAdif_of_receive receive_datagramA
  refine ((dropped_exactly_iff (W := createdJson) rfl ⟨adifA, hlen⟩ 1).2 json _ _ _ _ _ _
    pushOne_created ⟨_, List.mem_singleton.mpr rfl, rfl⟩).mpr ⟨?_, ?_⟩
  · intro name hname hstray
    rw [(summarizeAdif_panics_iff (Nat.le_trans hlen (by decide))).mpr ⟨name, hname, hstray⟩]
      at hsum
    cases hsum
  · intro init x rest heq
    have hx : x ∈ [createdAnswer] := by simp [heq]
    obtain rfl := List.mem_singleton.mp hx
    exact .inl rfl

/-- An entry that a start reads from the queue file. -/
def strayItem : QueueItem := { seq := some 1, adif := "<CALL:1>é".toList }

/-- **Wavelog logs it, and it stays in the queue**: the log line of the outcome panics before the
removal. -/
theorem stray_item_kept : ¬ ∀ (J : SerdeJson) (W : WavelogJson) (item : QueueItem) (seq : UInt64)
    (station : Resolution) (attempts : List Exchange) (res : Except WavelogError Unit)
    (inner : Inner) (disk : Disk) (io : RewriteIo), W.qsoResponse [] = none →
      item.seq = some seq → pushOne W station attempts = some res →
        (∃ e ∈ inner.entries, e.seq = seq) →
          DroppedExactly J W item seq station attempts res inner disk io := fun h => by
  have hd := h json createdJson strayItem 1 _ _ _ ⟨[⟨1, strayItem.adif, 0⟩], 2⟩ ⟨none, []⟩ .ok rfl
    rfl pushOne_created ⟨_, List.mem_singleton.mpr rfl, rfl⟩
  have hlast : LastDefinitive createdJson (allPosts [createdAnswer]) :=
    ⟨[], createdAnswer.last, rfl, 201, _, rfl, rfl, rfl⟩
  have hsum : summarizeAdif strayItem.adif = none := by decide +kernel
  have hrem := hd.removed hlast
  simp [handleOutcome, hsum] at hrem

end WavelogRelay.Wsjtx
