import WavelogRelay.Relay.EndToEnd

/-!
# Relay — what a web page can have done

Any page that a browser of this host shows can send requests to the relay.  `ws_upgrade` is put
before the WebSocket connections here; `tune` is in the listener already.  Both compare the first
`Origin` with that of Wavelog, but a click without one is accepted, and an upgrade is not.

* `Ordered`: who has asked for a command.
* `vetted`: in every run, the lines on the wire are those of the polls and of accepted clicks, and
  the state of the rig is told to nobody but Wavelog.
-/

namespace WavelogRelay.Relay
open Library Dialogue
open Rig (F32 Job WireEvent linesOf written onBehalf requested setFreqLine)
open Listener (StatusCode Mismatched Asks modeLine)

variable {κ ν F : Type} [DecidableEq κ] [DecidableEq ν]

/-! ### The door -/

/-- `ws_upgrade`, for a request that axum can upgrade: 403, or the connection is handed to
`handle_connection`. -/
def wsUpgrade (allowOrigin : Bytes) (origins : List Bytes) : Except StatusCode Unit :=
  if origins.head? ≠ some allowOrigin then .error .forbidden else .ok ()

theorem wsUpgrade_eq_ok_iff {allowOrigin : Bytes} {origins : List Bytes} :
    wsUpgrade allowOrigin origins = .ok () ↔ ∃ rest, origins = allowOrigin :: rest := by
  rw [wsUpgrade]
  constructor
  · intro h
    split at h
    · cases h
    · rename_i hhead
      exact List.head?_eq_some_iff.mp (not_not.mp hhead)
  · rintro ⟨rest, rfl⟩
    exact if_neg fun hne => hne rfl

/-- The relay, and the requests that `ws_upgrade` has upgraded. -/
structure Site (κ ν F : Type) where
  relay : World κ ν F
  upgraded : ν → Bool

def Site.start (radio : Text) (powerMaxWatts : F) : Site κ ν F where
  relay := .start radio powerMaxWatts
  upgraded _ := false

inductive Visit (κ ν F : Type) where
  | knocked (c : ν) (answer : Except StatusCode Unit)
  | relay (a : Act κ ν F)

/-- The step of the relay that a step is. -/
def Visit.act : Visit κ ν F → Option (Act κ ν F)
  | .knocked _ _ => none
  | .relay a => some a

/-- `origins c` are the `Origin` headers of the request that asks for the connection `c`. -/
inductive Visited (P : Setup κ F) (origins : ν → List Bytes) :
    Site κ ν F → Visit κ ν F → Site κ ν F → Prop where
  | refused {s : Site κ ν F} {c : ν} {status : StatusCode}
      (h : wsUpgrade P.app.allowOrigin (origins c) = .error status) :
      Visited P origins s (.knocked c (.error status)) s
  | upgraded {s : Site κ ν F} {c : ν} (h : wsUpgrade P.app.allowOrigin (origins c) = .ok ()) :
      Visited P origins s (.knocked c (.ok ()))
        { s with upgraded := Function.update s.upgraded c true }
  | relay {s : Site κ ν F} {a : Act κ ν F} {w : World κ ν F} (h : Step P s.relay a w)
      (hc : ∀ c b, a = .conn c b → s.upgraded c = true) :
      Visited P origins s (.relay a) { s with relay := w }

variable {P : Setup κ F} {origins : ν → List Bytes} {radio : Text} {powerMaxWatts : F}
  {vs : List (Visit κ ν F)} {v : Visit κ ν F} {s s' : Site κ ν F}
  {tr : List (Act κ ν F)} {w w' : World κ ν F} {a : Act κ ν F}

/-- Without its door, a run is a run of the relay. -/
theorem relay_run (h : Run (Visited P origins) Always (.start radio powerMaxWatts) vs s) :
    Run (Step P) Always (.start radio powerMaxWatts) (vs.filterMap Visit.act) s.relay := by
  refine h.simulate Site.relay Visit.act ?_ ?_
  · intro s v s' hs hv
    cases hs with
    | refused | upgraded => rfl
    | relay => cases hv
  · intro s v s' a _ hs hv
    cases hs with
    | refused | upgraded => cases hv
    | relay h =>
        cases hv
        exact ⟨trivial, h⟩

/-- Only an upgraded request has a connection, and only Wavelog's are upgraded. -/
structure Guarded (P : Setup κ F) (origins : ν → List Bytes) (vs : List (Visit κ ν F))
    (s : Site κ ν F) : Prop where
  upgraded : ∀ c, s.upgraded c = true → ∃ rest, origins c = P.app.allowOrigin :: rest
  conns : ∀ c b, .relay (.conn c b) ∈ vs → s.upgraded c = true
  waiting : ∀ c, s.upgraded c = false → s.relay.ws.conn c = .accepted

omit [DecidableEq κ] [DecidableEq ν] in
theorem Guarded.start : Guarded P origins [] (.start radio powerMaxWatts) where
  upgraded _ h := by cases h
  conns _ _ h := by cases h
  waiting _ _ := rfl

/-- A connection that steps has been upgraded. -/
theorem Guarded.relay (h : Guarded P origins vs s) (hs : Step P s.relay a w)
    (hc : ∀ c b, a = .conn c b → s.upgraded c = true) :
    Guarded P origins (vs ++ [.relay a]) { s with relay := w } := by
  refine ⟨h.upgraded, fun c b hmem => ?_, fun c hno => ?_⟩
  · rcases List.mem_append.mp hmem with hmem | hmem
    · exact h.conns c b hmem
    · cases List.mem_singleton.mp hmem
      exact hc c b rfl
  · have hwait : s.relay.ws.conn c = .accepted := h.waiting c hno
    cases hs with
    | @conn d b ws hs =>
        have hne : c ≠ d := by
          rintro rfl
          cases hno.symm.trans (hc c b rfl)
        cases hs with
        | conn => exact (Function.update_of_ne hne _ _).trans hwait
    | _ => exact hwait

theorem Guarded.step (h : Guarded P origins vs s) (hs : Visited P origins s v s') :
    Guarded P origins (vs ++ [v]) s' := by
  cases hs with
  | @refused c status =>
      refine ⟨h.upgraded, fun d b hmem => ?_, h.waiting⟩
      rcases List.mem_append.mp hmem with hmem | hmem
      · exact h.conns d b hmem
      · cases List.mem_singleton.mp hmem
  | @upgraded c ho =>
      have hupd : ∀ d, Function.update s.upgraded c true d = if d = c then true else s.upgraded d :=
        Function.update_apply _ _ _
      refine ⟨fun d hd => ?_, fun d b hmem => ?_, fun d hd => ?_⟩
      · by_cases hdc : d = c
        · exact hdc ▸ wsUpgrade_eq_ok_iff.mp ho
        · exact h.upgraded d (((hupd d).trans (if_neg hdc)).symm.trans hd)
      · rcases List.mem_append.mp hmem with hmem | hmem
        · exact (hupd d).trans (by rw [h.conns d b hmem, ite_self])
        · cases List.mem_singleton.mp hmem
      · refine h.waiting d ?_
        by_cases hdc : d = c
        · cases hd.symm.trans ((hupd d).trans (if_pos hdc))
        · exact (if_neg hdc).symm.trans ((hupd d).symm.trans hd)
  | relay hs hc => exact h.relay hs hc

/-! ### The commands -/

/-- A click that the handler has accepted, and what it asks of the rig. -/
structure Accepted (P : Setup κ F) (tr : List (Act κ ν F)) (c : κ) (job : Job) : Prop where
  dispatched : .listener (.dispatched c job) ∈ tr
  matched : ¬ Mismatched P.app (P.request c)
  asks : ∃ freq mode, Asks (P.request c) freq mode ∧
    job.cmd = .setFreqMode freq (mode.resolve P.app.overrides)

/-- Who has asked for a command: the loop, or a click. -/
def Ordered (P : Setup κ F) (tr : List (Act κ ν F)) (job : Job) : Prop :=
  job.cmd = .poll ∨ ∃ c, Accepted P tr c job

omit [DecidableEq κ] [DecidableEq ν] in
theorem Ordered.mono {job : Job} (h : Ordered P tr job) (a : Act κ ν F) :
    Ordered P (tr ++ [a]) job := by
  rcases h with h | ⟨c, h⟩
  · exact .inl h
  · exact .inr ⟨c, { h with dispatched := List.mem_append_left _ h.dispatched }⟩

/-- A step makes no other request. -/
theorem Ordered.request {job : Job} {b : Listener.Act κ F} (hs : Step P w a w')
    (hb : a.toListener = some b) (hj : b.rigAct = some (.requested job)) :
    Ordered P (tr ++ [a]) job := by
  cases hs <;> cases hb
  case asked =>
    cases hj
    exact .inl rfl
  case listener h ha =>
    cases h with
    | rig =>
        cases hj
        exact ha.elim
    | @dispatched c _ _ hc ht =>
        cases hj
        rcases Listener.tune_spec P.app (P.request c) with
          ⟨-, h'⟩ | ⟨-, -, h'⟩ | ⟨hm, freq, mode, hasks, h'⟩
        · cases ht.symm.trans h'
        · cases ht.symm.trans h'
        · cases ht.symm.trans h'
          exact .inr ⟨c, List.mem_concat_self, hm, _, mode, hasks, rfl⟩
    | refused | resumed | dropped => cases hj

/-- **Every command has been asked for** by the loop or by an accepted click. -/
theorem ordered_run {w₀ : World κ ν F} (h : Run (Step P) Always w₀ tr w) :
    ∀ job ∈ requested (toRig tr), Ordered P tr job := by
  refine h.invariant (I := fun tr _ => ∀ job ∈ requested (toRig tr), Ordered P tr job) ?_ ?_
  · intro job hj
    cases hj
  · intro tr w a w' _ ih _ hs job hj
    rw [toRig, toListener, filterMap_snoc, List.filterMap_append, requested, List.filterMap_append,
      List.mem_append] at hj
    rcases hj with hj | hj
    · exact (ih job hj).mono a
    · obtain ⟨r, hr, hreq⟩ := List.mem_filterMap.mp hj
      obtain ⟨b, hb, hrig⟩ := List.mem_filterMap.mp hr
      cases r with
      | requested job' =>
          cases hreq
          exact .request hs (Option.mem_toList.mp hb) hrig
      | _ => cases hreq

omit [DecidableEq κ] [DecidableEq ν] in
/-- A talk writes the lines of its command, in order. -/
theorem orderly_talk {R : F32 F} {job : Job} {es : List WireEvent}
    {rest : Rig.Wire (Except Rig.RigError (Rig.Reply F))}
    (h : Talk (Rig.handleCommand R job.cmd) es rest) : written es <+: linesOf job.cmd := by
  let service : Rig.Service R := ⟨0, job, es, none, rest, h, fun _ h => by cases h⟩
  exact service.orderly.lines

/-- What is said for a request is a talk of its command, and it has been made. -/
theorem recorded_run (h : Run (Step P) Always (.start radio powerMaxWatts) tr w) {job : Job}
    {e : WireEvent} (he : (job, e) ∈ w.listener.record) :
    job ∈ requested (toRig tr) ∧ written (onBehalf w.listener.record job) <+: linesOf job.cmd := by
  have hacc := Rig.account (Listener.recorded (listener_run h))
  refine ⟨by_contra fun hj => ?_, ?_⟩
  · have hmem : e ∈ onBehalf w.listener.record job :=
      List.mem_map.mpr ⟨(job, e), List.mem_filter.mpr ⟨he, decide_eq_true rfl⟩, rfl⟩
    rw [hacc.silent job (.inr hj)] at hmem
    cases hmem
  · obtain ⟨rest, htalk⟩ := hacc.talk job
    exact orderly_talk htalk

omit [DecidableEq ν] in
/-- What a click has asked of the rig stays so. -/
theorem keeps_job {l l' : Listener.System κ F} {b : Listener.Act κ F} {c : κ} {job : Job}
    (hs : Listener.Step P.float P.app P.request l b l') (h : (l.stage c).job? = some job) :
    (l'.stage c).job? = some job := by
  have hset : ∀ (d : κ) (stage : Listener.Stage), ((l.stage d).job? = some job →
      stage.job? = some job) → ((l.setStage d stage).stage c).job? = some job := by
    intro d stage hd
    rw [Listener.System.setStage_stage]
    split
    · rename_i hcd
      exact hd (hcd ▸ h)
    · exact h
  cases hs with
  | refused hc | dispatched hc =>
      refine hset _ _ fun hd => ?_
      rw [hc] at hd
      cases hd
  | rig => exact h
  | resumed hc =>
      refine hset _ _ fun hd => ?_
      rwa [hc] at hd
  | dropped => exact hset _ _ id

/-- A click asks for one command, which its stage names. -/
theorem dispatched_run {w₀ : World κ ν F} (h : Run (Step P) Always w₀ tr w) {c : κ} {job : Job}
    (hd : .listener (.dispatched c job) ∈ tr) : (w.listener.stage c).job? = some job := by
  refine h.invariant (I := fun tr w => .listener (.dispatched c job) ∈ tr →
    (w.listener.stage c).job? = some job) (fun hd => by cases hd) ?_ hd
  intro tr w a w' _ ih _ hs hd
  have hold : .listener (.dispatched c job) ∈ tr → (w'.listener.stage c).job? = some job := by
    intro hd
    have hjob := ih hd
    cases hs with
    | listener hs ha => exact keeps_job hs hjob
    | asked ht hl hw hs => exact keeps_job hs hjob
    | _ => exact hjob
  rcases List.mem_append.mp hd with hd | hd
  · exact hold hd
  · cases List.mem_singleton.mp hd
    cases hs with
    | listener hs ha =>
        cases hs with
        | dispatched => simp [Listener.System.setStage, Listener.Stage.job?]

/-! ### Every run -/

/-- The lines that read the rig. -/
def ReadLine (line : Text) : Prop := line ∈ linesOf .poll

/-- What holds of the relay, whatever requests any pages send. -/
structure Vetted (P : Setup κ F) (origins : ν → List Bytes) (vs : List (Visit κ ν F))
    (s : Site κ ν F) : Prop where
  /-- A line on the wire reads the rig, or is one of those of an accepted click. -/
  lines : ∀ line ∈ written (s.relay.listener.record.map Prod.snd), ReadLine line ∨
    ∃ c job freq mode, Accepted P (vs.filterMap Visit.act) c job ∧ Asks (P.request c) freq mode ∧
      (line = setFreqLine freq ∨ line = modeLine P.app mode)
  /-- An accepted click has its two lines at most, and has them once. -/
  click : ∀ c job freq mode, Accepted P (vs.filterMap Visit.act) c job →
    Asks (P.request c) freq mode →
      written (onBehalf s.relay.listener.record job) <+: [setFreqLine freq, modeLine P.app mode]
  once : ∀ c job job', Accepted P (vs.filterMap Visit.act) c job →
    Accepted P (vs.filterMap Visit.act) c job' → job = job'
  /-- A connection that does anything is one of Wavelog's page. -/
  told : ∀ c b, .relay (.conn c b) ∈ vs → ∃ rest, origins c = P.app.allowOrigin :: rest
  /-- For any other no frame is even queued. -/
  untold : ∀ c, (∀ rest, origins c ≠ P.app.allowOrigin :: rest) →
    s.relay.ws.conn c = .accepted

omit [DecidableEq κ] [DecidableEq ν] in
/-- The lines of a click. -/
theorem Accepted.linesOf {c : κ} {job : Job} {freq : UInt64} {mode : Modes.Mode}
    (h : Accepted P tr c job) (ha : Asks (P.request c) freq mode) :
    linesOf job.cmd = [setFreqLine freq, modeLine P.app mode] := by
  obtain ⟨freq', mode', ha', hcmd⟩ := h.asks
  obtain ⟨rfl, rfl⟩ := ha.unique ha'
  rw [hcmd]
  rfl

/-- **What a web page can have done.**  In every run, and whatever the pages of any origin ask
for: it has retuned the rig only if it is Wavelog's or has no origin, by the two lines of each
click; and it has been told the state of the rig only if it is Wavelog's. -/
theorem vetted (h : Run (Visited P origins) Always (.start radio powerMaxWatts) vs s) :
    Vetted P origins vs s := by
  have hrelay := relay_run h
  have hguard : Guarded P origins vs s :=
    h.invariant (I := Guarded P origins) .start fun _ ih _ hs => ih.step hs
  refine ⟨fun line hline => ?_, fun c job freq mode hc ha => ?_, fun c job job' hc hc' => ?_,
    fun c b hmem => hguard.upgraded c (hguard.conns c b hmem), fun c hc => ?_⟩
  · obtain ⟨e, he, hwrites⟩ := List.mem_filterMap.mp hline
    obtain ⟨⟨job, e⟩, hrec, rfl⟩ := List.mem_map.mp he
    obtain ⟨hreq, hlines⟩ := recorded_run hrelay hrec
    have hmem : line ∈ linesOf job.cmd := by
      refine hlines.subset (List.mem_filterMap.mpr ⟨e, ?_, hwrites⟩)
      exact List.mem_map.mpr ⟨(job, e), List.mem_filter.mpr ⟨hrec, decide_eq_true rfl⟩, rfl⟩
    rcases ordered_run hrelay job hreq with hpoll | ⟨c, hc⟩
    · rw [hpoll] at hmem
      exact .inl hmem
    · obtain ⟨freq, mode, hasks, -⟩ := hc.asks
      rw [hc.linesOf hasks] at hmem
      exact .inr ⟨c, job, freq, mode, hc, hasks, by simpa using hmem⟩
  · obtain ⟨rest, htalk⟩ :=
      (Rig.account (Listener.recorded (listener_run hrelay))).talk job
    rw [← hc.linesOf ha]
    exact orderly_talk htalk
  · exact Option.some.inj ((dispatched_run hrelay hc.dispatched).symm.trans
      (dispatched_run hrelay hc'.dispatched))
  · refine hguard.waiting c ?_
    cases hup : s.upgraded c with
    | false => rfl
    | true =>
        obtain ⟨rest, ho⟩ := hguard.upgraded c hup
        exact absurd ho (hc rest)

def wavelogOrigin : Bytes := utf8 "https://wavelog.test".toList

/-- Wavelog's page and another. -/
def pageOrigins : Bool → List Bytes
  | true => [wavelogOrigin]
  | false => [utf8 "https://evil.example".toList]

/-- Both pages ask for the same frequency. -/
def pageSetup : Setup Bool Nat :=
  { secondSetup with
    app := { overrides := {}, allowOrigin := wavelogOrigin }
    request := fun page => { Listener.clickRequest with origins := pageOrigins page } }

/-- Wavelog's page is told of the rig, and both click. -/
def pageActs : List (Act Bool Bool Nat) :=
  [.conn true .check, .conn true .subscribe, .listener (.refused false .forbidden),
    .listener (.dispatched true Listener.clickJob), .listener (.rig (.connected 0)),
    .listener (.rig (.sent Listener.clickJob)),
    .listener (.rig (.received 0 Listener.clickJob))] ++
    Listener.clickTalk.map (fun e => .listener (.rig (.wire 0 e))) ++
    [.listener (.rig (.served 0 Listener.clickJob (.ok .done)))]

/-- Both have asked for a connection. -/
def pageVisits : List (Visit Bool Bool Nat) :=
  [.knocked false (.error .forbidden), .knocked true (.ok ())] ++ pageActs.map .relay

def pageEnd : Site Bool Bool Nat where
  relay :=
    { (World.start "IC-7300".toList 100 : World Bool Bool Nat) with
      listener :=
        { ((Listener.System.start : Listener.System Bool Nat).setStage false
            (.answered none .forbidden)).setStage true (.setting Listener.clickJob) with
          rig :=
            { (Rig.World.spawn : Rig.World Nat) with
              requests := 1
              conns := 1
              phase := .serving 0 }
          record := Listener.clickTalk.map (Listener.clickJob, ·)
          replies := [(Listener.clickJob, .ok .done)] }
      ws :=
        { (Ws.Server.start "IC-7300".toList 100 : Ws.Server Nat Bool) with
          conn := [.subscribing 0, .welcoming 0 0].foldl
            (fun conn phase => Function.update conn true phase) fun _ => .accepted } }
  upgraded := Function.update (fun _ => false) true true

theorem page_vetted : Vetted pageSetup pageOrigins pageVisits pageEnd := by
  have hrun : Run (Visited pageSetup pageOrigins) Always (.start "IC-7300".toList 100)
      pageVisits pageEnd := by
    refine .cons trivial (.refused rfl) ?_
    refine .cons trivial (.upgraded rfl) ?_
    refine .cons trivial (.relay (.conn (.conn (.admitted rfl))) fun c b h => ?_) ?_
    · cases h
      rfl
    refine .cons trivial (.relay (.conn (.conn .subscribed)) fun c b h => ?_) ?_
    · cases h
      rfl
    refine .cons trivial (.relay (.listener (.refused rfl rfl) trivial) nofun) ?_
    refine .cons trivial (.relay (.listener (.dispatched rfl rfl rfl) trivial) nofun) ?_
    refine .cons trivial (.relay (.of_rig (.connected rfl) rfl trivial) nofun) ?_
    refine .cons trivial (.relay (.of_rig (.sent (l := []) rfl (by decide)) rfl trivial) nofun) ?_
    refine .cons trivial (.relay (.of_rig (.received rfl rfl) rfl trivial) nofun) ?_
    refine .cons trivial
      (.relay (.of_rig (.wire (q := .send _) rfl (.ok ())) rfl trivial) nofun) ?_
    refine .cons trivial
      (.relay (.of_rig (.wire (q := .readLine) rfl (.ok _)) rfl trivial) nofun) ?_
    refine .cons trivial
      (.relay (.of_rig (.wire (q := .send _) rfl (.ok ())) rfl trivial) nofun) ?_
    refine .cons trivial
      (.relay (.of_rig (.wire (q := .readLine) rfl (.ok _)) rfl trivial) nofun) ?_
    exact .cons trivial (.relay (.of_rig (.served rfl) rfl trivial) nofun) .nil
  exact vetted hrun

end WavelogRelay.Relay
