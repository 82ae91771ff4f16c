import WavelogRelay.Daemon.Effort

/-!
# Daemon — the shutdown completes

* `CanGo`: there is a step that a task can take of its own accord, without rigctld, Wavelog, WSJT-X
  or a browser.
* `shutdown_completes`: as such steps are bounded, `run_daemon` returns.
-/

namespace WavelogRelay
open Library

/-! ### The pipeline -/

namespace Wsjtx
open Queue (Disk SerdeJson)
open Wavelog (WavelogJson)

/-- A step that needs neither WSJT-X nor Wavelog. -/
def Act.Unaided : Act → Prop
  | .listener | .worker | .appended _ _ _ _ | .sent _ | .overflowed _ | .taken _
  | .removed _ _ _ => True
  | _ => False

theorem Act.Unaided.own {a : Act} (h : a.Unaided) : a.own = true := by
  cases a with
  | received => exact h.elim
  | _ => rfl

theorem Act.Unaided.not_update {a : Act} (h : a.Unaided) : a.isUpdate = false := by
  cases a with
  | shutdown | senderDropped => exact h.elim
  | _ => rfl

theorem Act.Unaided.sameProcess {a : Act} (h : a.Unaided) : SameProcess a := by
  cases a with
  | opened | openFailed => exact h.elim
  | _ => trivial

variable {J : SerdeJson} {W : WavelogJson} {disk : Disk} {p : Proc}

theorem observed_of_true {shutdown : Watch Bool} (hv : shutdown.value = true) (ok : Bool) :
    shutdownObserved ok shutdown = true := by
  simp [shutdownObserved, hv]

theorem afterAppend_ne_appending (adif adif' : Text) (res : Except Queue.QsoQueueError UInt64) :
    afterAppend adif res ≠ .appending adif' := by
  cases res <;> nofun

/-- The listener goes on until it has stopped. -/
theorem exists_listener (J : SerdeJson) (W : WavelogJson) (disk : Disk) (hat : p.Attends)
    (hv : p.shutdown.value = true) (hl : p.listener ≠ .stopped) :
    ∃ a disk' p', Step J W ⟨disk, some p⟩ a ⟨disk', some p'⟩ ∧ a.Unaided ∧
      p'.listener ≠ p.listener := by
  have hstops : p.listener.Watches →
      ∃ seen, p.shutdown.changed p.listenerSeen = some (true, seen) :=
    fun h => ⟨_, ((hat.listener h).stops hv).1⟩
  cases h : p.listener with
  | spawned replay => exact ⟨_, _, _, .listenerReturns h hv, trivial, nofun⟩
  | replaying rest =>
      cases rest with
      | nil => exact ⟨_, _, _, .replayDone h, trivial, nofun⟩
      | cons x rest =>
          obtain ⟨seen, hc⟩ := hstops (h ▸ trivial)
          refine ⟨_, _, _, .replayNotified h hc, trivial, ?_⟩
          rw [observed_of_true hv, if_pos rfl]
          nofun
  | receiving =>
      obtain ⟨seen, hc⟩ := hstops (h ▸ trivial)
      refine ⟨_, _, _, .listenerNotified h hc, trivial, ?_⟩
      rw [observed_of_true hv, if_pos rfl]
      nofun
  | appending adif =>
      have happend : Queue.QsoQueue.append J p.inner disk adif { now := 0 } = (_, _, _) := rfl
      exact ⟨_, _, _, .appended h happend, trivial, afterAppend_ne_appending _ _ _⟩
  | sending item =>
      by_cases hw : p.worker = .stopped
      · exact ⟨_, _, _, .tryClosed h hw, trivial, nofun⟩
      · by_cases hroom : p.chan.length < queueCapacity
        · exact ⟨_, _, _, .trySent h hw hroom, trivial, nofun⟩
        · exact ⟨_, _, _, .tryFull h hw (Nat.le_of_not_lt hroom), trivial, nofun⟩
  | stopped => exact absurd h hl

/-- So does the worker, or it aborts the process. -/
theorem exists_worker (J : SerdeJson) (W : WavelogJson) (disk : Disk) (hat : p.Attends)
    (hv : p.shutdown.value = true) (hw : p.worker ≠ .stopped) :
    Step J W ⟨disk, some p⟩ .aborted ⟨disk, none⟩ ∨
      ∃ a disk' p', Step J W ⟨disk, some p⟩ a ⟨disk', some p'⟩ ∧ a.Unaided ∧
        p'.worker ≠ p.worker := by
  have hstops : p.worker.Watches → ∃ seen, p.shutdown.changed p.workerSeen = some (true, seen) :=
    fun h => ⟨_, ((hat.worker h).stops hv).1⟩
  cases h : p.worker with
  | spawned => exact .inr ⟨_, _, _, .workerReturns h hv, trivial, nofun⟩
  | idle =>
      obtain ⟨seen, hc⟩ := hstops (h ▸ trivial)
      refine .inr ⟨_, _, _, .workerNotified h hc, trivial, ?_⟩
      rw [observed_of_true hv, if_pos rfl]
      nofun
  | pushing item =>
      obtain ⟨seen, hc⟩ := hstops (h ▸ trivial)
      refine .inr ⟨_, _, _, .pushNotified h hc, trivial, ?_⟩
      rw [observed_of_true hv, if_pos rfl]
      nofun
  | finishing item res =>
      cases hsum : summarizeAdif item.adif with
      | none => exact .inl (.finishPanics h hsum)
      | some summary =>
          refine .inr ⟨_, _, _, .finished h hsum, trivial, ?_⟩
          intro heq
          have hle := left_handlePostOutcome res item
          have hleft : (handlePostOutcome res item).left = 3 := congrArg Worker.left heq
          omega
  | removing seq =>
      have hremove : Queue.QsoQueue.remove J p.inner disk seq .ok = (_, _, _) := rfl
      exact .inr ⟨_, _, _, .removed h hremove, trivial, nofun⟩
  | stopped => exact absurd h hw

end Wsjtx

/-! ### The daemon -/

namespace Daemon

variable {κ ν F : Type}

/-- A step that needs no peer. -/
def Act.Unaided : Act κ ν F → Prop
  | .relay (.listener (.rig a)) => a.Unaided ∨ a = .handlesDropped
  | .relay (.listener (.resumed _ _)) | .relay .returned | .relay (.published _ _ _)
  | .relay (.failed _ _) | .relay .stopped | .relay (.worker .worker)
  | .relay (.worker (.cancelled _ _)) => True
  | .http | .ws | .joined _ | .aborted => True
  | .pipeline a => a.Unaided
  | _ => False

/-- What a state of the daemon keeps. -/
structure Sound (P : Setup κ F) (w : World κ ν F) : Prop where
  attends : w.Attends
  live : Rig.Live w.relay.listener.rig
  due : w.relay.Due
  reply : ∀ {job reply}, w.relay.loop = .polling job →
    (job, .ok reply) ∈ w.relay.listener.replies → ∃ state, reply = .state state

variable [DecidableEq κ] [DecidableEq ν] {P : Setup κ F} {w w' : World κ ν F}

/-- A step that a task can take of its own accord. -/
def CanGo (P : Setup κ F) (w : World κ ν F) : Prop :=
  ∃ a w', Step P w a w' ∧ a.own = true ∧ a.Unaided

theorem canGo_relay {a : Relay.Act κ ν F} {r : Relay.World κ ν F} (hm : w.main.Runs)
    (hs : Relay.Step P.toSetup w.relay a r) (ha : w.Allows P a) (hown : a.own = true)
    (hun : (Act.relay a : Act κ ν F).Unaided) : CanGo P w :=
  ⟨_, _, .relay hm hs ha, hown, hun⟩

theorem canGo_rig (hm : w.main.Runs) {a : Rig.Act F} {r : Rig.World F}
    (hs : Rig.Step P.float w.relay.listener.rig a r) (ha : a.Unaided) : CanGo P w := by
  have hlisten : Listener.Step P.float P.app P.request w.relay.listener (.rig a) _ :=
    .rig hs fun job h => by
      subst h
      exact ha.elim
  refine canGo_relay hm (.listener hlisten ?_) ?_ ha.own (.inl ha)
  · cases a with
    | requested | abandoned | handlesDropped => exact ha.elim
    | _ => trivial
  · cases a with
    | handlesDropped => exact ha.elim
    | _ => trivial

/-- A request that is pending is on its way to a reply. -/
theorem canGo_pending (h : Sound P w) (hm : w.main.Runs) {job : Rig.Job}
    (hj : job ∈ w.relay.listener.rig.pending) : CanGo P w := by
  have hne := List.ne_nil_of_mem hj
  have hst : w.relay.listener.rig.phase ≠ .stopped := fun hst => by
    obtain ⟨hh, hc⟩ := h.live.stopped hst
    exact hne (Rig.pending_eq_nil.mpr ⟨h.live.dropped hh, hc, by rw [hst]; rfl⟩)
  obtain ⟨a, r, hs, ha⟩ := Rig.exists_unaided P.float (.inl hne) hst
  exact canGo_rig hm hs ha

/-- The tick loop and its worker end. -/
theorem canGo_poller (h : Sound P w) (hm : w.main.Runs) (hv : w.shutdown.value = true)
    (ht : ¬ w.relay.Returned) : CanGo P w := by
  have hat := h.attends.relay.poller
  cases hticker : w.relay.poller.ticker with
  | spawned => exact canGo_relay hm (.returned hticker hv) trivial rfl trivial
  | ticking =>
      cases hloop : w.relay.loop with
      | sleeping wake =>
          obtain ⟨hc, hobs⟩ := (hat.ticker hticker).stops hv
          exact canGo_relay hm (.stopped hticker hloop hc hobs) trivial rfl trivial
      | polling job =>
          rcases h.due.loop job hloop with hp | ⟨res, hr⟩
          · exact canGo_pending h hm hp
          · cases res with
            | error e => exact canGo_relay hm (.failed hticker hloop hr) trivial rfl trivial
            | ok reply =>
                obtain ⟨state, rfl⟩ := h.reply hloop hr
                exact canGo_relay hm (.published 0 hticker hloop hr) trivial rfl trivial
  | stopped =>
      cases hworker : w.relay.poller.worker with
      | unspawned => exact absurd ⟨hticker, .inr hworker⟩ ht
      | stopped => exact absurd ⟨hticker, .inl hworker⟩ ht
      | spawned =>
          exact canGo_relay hm (.worker (.workerReturns hworker hv) trivial) trivial rfl trivial
      | idle =>
          obtain ⟨hc, -⟩ := (hat.worker (hworker ▸ trivial)).stops hv
          exact canGo_relay hm (.worker (.workerNotified hworker hc) trivial) trivial rfl trivial
      | pushing s kind =>
          obtain ⟨hc, -⟩ := (hat.worker (hworker ▸ trivial)).stops hv
          have hnone : Poller.Interrupted [] := ⟨Nat.zero_le _, nofun⟩
          exact canGo_relay hm (.worker (.cancelled hworker hnone hc) trivial) trivial rfl trivial

/-- A server stops, once nothing holds it. -/
theorem Serve.exists_step {shutdown : Watch Bool} {Drained : Prop} {x : Serve}
    (hat : x.Attends shutdown) (hv : shutdown.value = true) (hx : x ≠ .returned)
    (hd : Drained) : ∃ x', Serve.Step shutdown Drained x x' := by
  rcases x with (_ | seen | _) | _
  · exact ⟨_, .notified (.returns hv)⟩
  · exact ⟨_, .notified (.notified (Awake.stops hat hv).1)⟩
  · exact ⟨_, .returned hd⟩
  · exact absurd rfl hx

theorem canGo_http (h : Sound P w) (hm : w.main.Runs) (hv : w.shutdown.value = true)
    (ht : w.http ≠ .returned) : CanGo P w := by
  by_cases hd : w.Drained
  · obtain ⟨x, hs⟩ := Serve.exists_step h.attends.http hv ht hd
    exact ⟨_, _, .http hm hs, rfl, trivial⟩
  · -- a handler waits for the rig
    simp only [World.Drained, not_forall, not_not] at hd
    obtain ⟨c, job, hc⟩ := hd
    rcases h.due.handlers c job hc with hp | ⟨res, hr⟩
    · exact canGo_pending h hm hp
    · exact canGo_relay hm (.listener (.resumed hc hr) trivial) trivial rfl trivial

theorem canGo_pipeline (hm : w.main.Runs) {p p' : Wsjtx.Proc} {a : Wsjtx.Act} {disk : Queue.Disk}
    (hp : w.pipeline.proc = some p)
    (hs : Wsjtx.Step P.serde P.wavelog ⟨w.pipeline.disk, some p⟩ a ⟨disk, some p'⟩)
    (ha : a.Unaided) (hne : p' ≠ p) : CanGo P w := by
  obtain ⟨relay, ⟨disk₀, _⟩, http, ws, main⟩ := w
  cases hp
  refine ⟨.pipeline a, _, .pipeline hm hs ha.not_update ha.sameProcess rfl ?_, ha.own, ha⟩
  intro h
  cases h
  exact hne rfl

theorem canGo_wsjtxListener (h : Sound P w) (hm : w.main.Runs) (hv : w.shutdown.value = true)
    (ht : ¬ w.Ended .wsjtxListener) : CanGo P w := by
  simp only [World.Ended, not_forall] at ht
  obtain ⟨p, hp, hl⟩ := ht
  have hone := h.attends.one p hp
  obtain ⟨a, disk, p', hs, ha, hne⟩ := Wsjtx.exists_listener P.serde P.wavelog w.pipeline.disk
    (h.attends.pipeline p hp) (hone ▸ hv) hl
  exact canGo_pipeline hm hp hs ha fun heq => hne (heq ▸ rfl)

theorem canGo_wsjtxWorker (h : Sound P w) (hm : w.main.Runs) (hv : w.shutdown.value = true)
    (ht : ¬ w.Ended .wsjtxWorker) : CanGo P w := by
  simp only [World.Ended, not_forall] at ht
  obtain ⟨p, hp, hw⟩ := ht
  have hone := h.attends.one p hp
  rcases Wsjtx.exists_worker P.serde P.wavelog w.pipeline.disk (h.attends.pipeline p hp)
    (hone ▸ hv) hw with hs | ⟨a, disk, p', hs, ha, hne⟩
  · obtain ⟨relay, ⟨disk, _⟩, http, ws, main⟩ := w
    cases hp
    exact ⟨.aborted, _, .aborted hm hs, rfl, trivial⟩
  · exact canGo_pipeline hm hp hs ha fun heq => hne (heq ▸ rfl)

/-- The actor ends, once nobody else is left. -/
theorem canGo_actor (h : Sound P w) (hm : w.main.Runs) (hret : w.relay.Returned)
    (hhttp : w.http = .returned) (ht : w.relay.listener.rig.phase ≠ .stopped) : CanGo P w := by
  cases hh : w.relay.listener.rig.handles with
  | false =>
      obtain ⟨a, r, hs, ha⟩ := Rig.exists_unaided P.float (.inr hh) ht
      exact canGo_rig hm hs ha
  | true =>
      by_cases hw : w.relay.listener.rig.waiting = []
      · exact canGo_relay hm (.of_rig (.handlesDropped hh hw) rfl hret) hhttp rfl (.inr rfl)
      · obtain ⟨job, rest, hcons⟩ := List.exists_cons_of_ne_nil hw
        have hj : job ∈ w.relay.listener.rig.pending := by simp [Rig.World.pending, hcons]
        exact canGo_pending h hm hj

end Daemon

end WavelogRelay
