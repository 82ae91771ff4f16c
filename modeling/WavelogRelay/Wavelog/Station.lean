import WavelogRelay.Library.Runs
import WavelogRelay.Library.Since
import WavelogRelay.Wavelog.Client

/-!
# Wavelog — the active station

`StationSource::active` of `wavelog/station.rs`, for any number of tasks that share its cache.
The clock goes on between the steps of the tasks, in nanoseconds; what a task does between two
awaits takes no time.  The world keeps the responses that were received and the ids that were
returned, with their times.

* `StationInv.step`: the cached id is that of the last response with an active station, and at most
  one task fetches.
* `bounded_staleness`: in every run in which no call gets the lock while the cached id is more than
  60 seconds and less than 5 minutes old, every id that is returned was received within 60 seconds.
* `stale_of_untimely`: a call that does returns an older one.
* `stale_station`: a run that returns an id after 61 seconds.
-/

namespace WavelogRelay.Wavelog
open Library

def second : Nat := 1000000000

/-- `DEFAULT_ACTIVE_TTL`. -/
def defaultActiveTtl : Nat := 5 * 60 * second

/-- The window that the documentation gives. -/
def documentedTtl : Nat := 60 * second

structure CachedActive where
  id : Text
  fetchedAt : Nat
  deriving DecidableEq, Repr

structure ActiveStationCache where
  state : Option CachedActive
  ttl : Nat
  deriving DecidableEq, Repr

/-- The cache of `StationSource::active`, which its clones share. -/
def ActiveStationCache.active : ActiveStationCache := { state := none, ttl := defaultActiveTtl }

/-- The cached id, if it is young enough at `now`. -/
def ActiveStationCache.cached (cache : ActiveStationCache) (now : Nat) : Option Text :=
  match cache.state with
  | none => none
  | some c => if now - c.fetchedAt < cache.ttl then some c.id else none

/-- Where a call of `resolve` is: it waits for the lock, or holds it and has met `attempts`. -/
inductive Resolving where
  | idle
  | waiting
  | fetching (attempts : List HttpOutcome)
  deriving DecidableEq, Repr

structure Stations (τ : Type) where
  clock : Nat
  cache : ActiveStationCache
  locked : Bool
  task : τ → Resolving
  received : List (Nat × HttpOutcome)
  returned : List (Nat × Text)

inductive StationAct (τ : Type) where
  | elapsed (time : Nat)
  | called (x : τ)
  /-- A call gets the lock, and returns the cached id or starts to fetch. -/
  | hit (x : τ)
  | missed (x : τ)
  /-- An attempt that is followed by another one. -/
  | retried (x : τ) (met : HttpOutcome)
  | fetched (x : τ) (met : HttpOutcome)
  | failed (x : τ) (met : HttpOutcome)
  /-- The base URL takes no path. -/
  | unroutable (x : τ)
  /-- The task is dropped, while it waits or while it fetches. -/
  | dropped (x : τ)
  | abandoned (x : τ)

variable {τ : Type}

def Stations.start (clock : Nat) : Stations τ where
  clock := clock
  cache := .active
  locked := false
  task _ := .idle
  received := []
  returned := []

/-- A step of a task, or of the clock. -/
inductive StationStep [DecidableEq τ] (W : WavelogJson) :
    Stations τ → StationAct τ → Stations τ → Prop where
  | elapsed {s : Stations τ} (time : Nat) :
      StationStep W s (.elapsed time) { s with clock := s.clock + time }
  | called {s : Stations τ} {x : τ} (hx : s.task x = .idle) :
      StationStep W s (.called x) { s with task := Function.update s.task x .waiting }
  | hit {s : Stations τ} {x : τ} {id : Text} (hx : s.task x = .waiting) (hfree : s.locked = false)
      (hid : s.cache.cached s.clock = some id) :
      StationStep W s (.hit x)
        { s with task := Function.update s.task x .idle
                 returned := (s.clock, id) :: s.returned }
  | missed {s : Stations τ} {x : τ} (hx : s.task x = .waiting) (hfree : s.locked = false)
      (hid : s.cache.cached s.clock = none) :
      StationStep W s (.missed x)
        { s with task := Function.update s.task x (.fetching []), locked := true }
  | retried {s : Stations τ} {x : τ} {attempts : List HttpOutcome} {met : HttpOutcome}
      {e : WavelogError} (hx : s.task x = .fetching attempts)
      (hleft : attempts.length + 1 < retrySleeps.length)
      (hmet : fetchActive W met = .error e) (he : isRetryable e = true) :
      StationStep W s (.retried x met)
        { s with task := Function.update s.task x (.fetching (attempts ++ [met]))
                 received := (s.clock, met) :: s.received }
  | fetched {s : Stations τ} {x : τ} {attempts : List HttpOutcome} {met : HttpOutcome} {id : Text}
      (hx : s.task x = .fetching attempts)
      (hres : findActiveStation W (attempts ++ [met]) = some (.ok id)) :
      StationStep W s (.fetched x met)
        { s with task := Function.update s.task x .idle
                 locked := false
                 cache := { s.cache with state := some { id, fetchedAt := s.clock } }
                 received := (s.clock, met) :: s.received
                 returned := (s.clock, id) :: s.returned }
  | failed {s : Stations τ} {x : τ} {attempts : List HttpOutcome} {met : HttpOutcome}
      {e : WavelogError} (hx : s.task x = .fetching attempts)
      (hres : findActiveStation W (attempts ++ [met]) = some (.error e)) :
      StationStep W s (.failed x met)
        { s with task := Function.update s.task x .idle
                 locked := false
                 received := (s.clock, met) :: s.received }
  | unroutable {s : Stations τ} {x : τ} (hx : s.task x = .fetching []) :
      StationStep W s (.unroutable x)
        { s with task := Function.update s.task x .idle, locked := false }
  | dropped {s : Stations τ} {x : τ} (hx : s.task x = .waiting) :
      StationStep W s (.dropped x) { s with task := Function.update s.task x .idle }
  | abandoned {s : Stations τ} {x : τ} {attempts : List HttpOutcome}
      (hx : s.task x = .fetching attempts) :
      StationStep W s (.abandoned x)
        { s with task := Function.update s.task x .idle, locked := false }

/-- No call gets the lock while the cached id is past the documented window and the cache still
takes it. -/
def Timely (s : Stations τ) (a : StationAct τ) : Prop :=
  ∀ x, (a = .hit x ∨ a = .missed x) → ∀ c, s.cache.state = some c →
    s.clock ≤ c.fetchedAt + documentedTtl ∨ c.fetchedAt + defaultActiveTtl ≤ s.clock

/-- A fetch that fails. -/
def StationAct.Fails (a : StationAct τ) : Prop :=
  ∃ x, (∃ met, a = .failed x met) ∨ a = .unroutable x ∨ a = .abandoned x

def StationAct.IsFetched (a : StationAct τ) : Prop := ∃ x met, a = .fetched x met

/-- What holds after the acts `tr`. -/
structure BoundedStaleness [DecidableEq τ] (W : WavelogJson) (tr : List (StationAct τ))
    (s : Stations τ) : Prop where
  /-- An id that was returned is of a response received within the documented window. -/
  fresh : ∀ t id, (t, id) ∈ s.returned → ∃ r met, (r, met) ∈ s.received ∧
    fetchActive W met = .ok id ∧ r ≤ t ∧ t ≤ r + documentedTtl
  /-- A failed fetch leaves the cache, and until one succeeds no call is answered from it. -/
  kept : ∀ a s', StationStep W s a s' → a.Fails → s'.cache = s.cache
  refetches : Since StationAct.Fails (fun a => ¬ a.IsFetched) tr →
    ∀ x s', ¬ StationStep W s (.hit x) s'
  single : ∀ x y as bs, s.task x = .fetching as → s.task y = .fetching bs → x = y
  /-- No fetch starts within the window after an id was received. -/
  lazy : ∀ x s', StationStep W s (.missed x) s' → ∀ r met id, (r, met) ∈ s.received →
    fetchActive W met = .ok id → r + documentedTtl ≤ s.clock

/-! ### The cache -/

section Cache

variable {cache : ActiveStationCache} {now now' : Nat} {id : Text} {c : CachedActive}

theorem cached_eq_some (h : cache.cached now = some id) :
    ∃ c, cache.state = some c ∧ c.id = id ∧ now - c.fetchedAt < cache.ttl := by
  unfold ActiveStationCache.cached at h
  cases hc : cache.state with
  | none =>
      rw [hc] at h
      cases h
  | some c =>
      rw [hc] at h
      dsimp only at h
      by_cases hage : now - c.fetchedAt < cache.ttl
      · rw [if_pos hage] at h
        exact ⟨c, rfl, Option.some.inj h, hage⟩
      · rw [if_neg hage] at h
        cases h

theorem cached_eq_none_iff :
    cache.cached now = none ↔ ∀ c, cache.state = some c → cache.ttl ≤ now - c.fetchedAt := by
  unfold ActiveStationCache.cached
  cases cache.state with
  | none => simp
  | some c => simp

/-- An id that is too old does not get younger. -/
theorem cached_none_of_le (h : cache.cached now = none) (hle : now ≤ now') :
    cache.cached now' = none := by
  rw [cached_eq_none_iff] at h ⊢
  exact fun c hc => Nat.le_trans (h c hc) (Nat.sub_le_sub_right hle _)

end Cache

/-- The last attempt of a fetch that succeeds has the id. -/
theorem fetchActive_of_fetched {W : WavelogJson} {attempts : List HttpOutcome} {met : HttpOutcome}
    {res : Except WavelogError Text} (h : findActiveStation W (attempts ++ [met]) = some res) :
    fetchActive W met = res := by
  obtain ⟨-, init, hinit, -⟩ := withRetries_spec h
  rw [List.map_append, List.map_singleton] at hinit
  exact (List.append_singleton_inj.mp hinit).2

/-! ### What every run keeps -/

section Runs

variable [DecidableEq τ] {W : WavelogJson} {s s' : Stations τ} {a : StationAct τ}
  {tr : List (StationAct τ)}

/-- What is cached and returned, at the time `clock`, after the responses `received`. -/
structure CacheInv (W : WavelogJson) (clock : Nat) (cache : ActiveStationCache)
    (received : List (Nat × HttpOutcome)) (returned : List (Nat × Text)) : Prop where
  ttl : cache.ttl = defaultActiveTtl
  past : ∀ r met, (r, met) ∈ received → r ≤ clock
  /-- The cached id is that of a response, and no later one had an active station. -/
  cached : ∀ c, cache.state = some c →
    ∃ met, (c.fetchedAt, met) ∈ received ∧ fetchActive W met = .ok c.id
  latest : ∀ r met id, (r, met) ∈ received → fetchActive W met = .ok id →
    ∃ c, cache.state = some c ∧ r ≤ c.fetchedAt
  fresh : ∀ t id, (t, id) ∈ returned → ∃ r met, (r, met) ∈ received ∧
    fetchActive W met = .ok id ∧ r ≤ t ∧ t ≤ r + documentedTtl

/-- A task that fetches has the lock, alone, and the cache was of no use to it. -/
structure LockInv (unusable : Prop) (locked : Bool) (task : τ → Resolving) : Prop where
  holds : ∀ x as, task x = .fetching as → locked = true ∧ unusable
  single : ∀ x y as bs, task x = .fetching as → task y = .fetching bs → x = y

namespace CacheInv

variable {clock time : Nat} {cache : ActiveStationCache} {received : List (Nat × HttpOutcome)}
  {returned : List (Nat × Text)} {met : HttpOutcome} {id : Text}

theorem elapsed (h : CacheInv W clock cache received returned) :
    CacheInv W (clock + time) cache received returned :=
  ⟨h.ttl, fun r met hr => Nat.le_add_right_of_le (h.past r met hr), h.cached, h.latest, h.fresh⟩

/-- One more response. -/
theorem past_cons (h : CacheInv W clock cache received returned) :
    ∀ r met', (r, met') ∈ (clock, met) :: received → r ≤ clock := fun r met' hr => by
  rcases List.mem_cons.mp hr with heq | hr
  · exact Nat.le_of_eq (Prod.mk.inj heq).1
  · exact h.past r met' hr

/-- A response without an active station. -/
theorem refused {e : WavelogError} (h : CacheInv W clock cache received returned)
    (hmet : fetchActive W met = .error e) :
    CacheInv W clock cache ((clock, met) :: received) returned := by
  refine ⟨h.ttl, h.past_cons, fun c hc => ?_, fun r met' id hr hok => ?_, fun t id ht => ?_⟩
  · obtain ⟨met', hmem, hok⟩ := h.cached c hc
    exact ⟨met', List.mem_cons_of_mem _ hmem, hok⟩
  · rcases List.mem_cons.mp hr with heq | hr
    · rw [(Prod.mk.inj heq).2, hmet] at hok
      cases hok
    · exact h.latest r met' id hr hok
  · obtain ⟨r, met', hmem, hrest⟩ := h.fresh t id ht
    exact ⟨r, met', List.mem_cons_of_mem _ hmem, hrest⟩

/-- A response whose active station is cached and returned. -/
theorem stored (h : CacheInv W clock cache received returned)
    (hmet : fetchActive W met = .ok id) :
    CacheInv W clock { cache with state := some { id, fetchedAt := clock } }
      ((clock, met) :: received) ((clock, id) :: returned) := by
  refine ⟨h.ttl, h.past_cons, ?_, fun r met' id' hr _ => ⟨_, rfl, h.past_cons r met' hr⟩,
    fun t id' ht => ?_⟩
  · rintro c ⟨⟩
    exact ⟨met, List.mem_cons_self, hmet⟩
  · rcases List.mem_cons.mp ht with heq | ht
    · obtain ⟨rfl, rfl⟩ := Prod.mk.inj heq
      exact ⟨t, met, List.mem_cons_self, hmet, Nat.le_refl _, Nat.le_add_right _ _⟩
    · obtain ⟨r, met', hmem, hrest⟩ := h.fresh t id' ht
      exact ⟨r, met', List.mem_cons_of_mem _ hmem, hrest⟩

/-- The cached id is returned within the window. -/
theorem answered (h : CacheInv W clock cache received returned) {c : CachedActive}
    (hc : cache.state = some c) (ht : clock ≤ c.fetchedAt + documentedTtl) :
    CacheInv W clock cache received ((clock, c.id) :: returned) := by
  refine ⟨h.ttl, h.past, h.cached, h.latest, fun t id hmem => ?_⟩
  rcases List.mem_cons.mp hmem with heq | hmem
  · obtain ⟨rfl, rfl⟩ := Prod.mk.inj heq
    obtain ⟨met, hr, hok⟩ := h.cached c hc
    exact ⟨c.fetchedAt, met, hr, hok, h.past _ met hr, ht⟩
  · exact h.fresh t id hmem

end CacheInv

namespace LockInv

variable {unusable : Prop} {locked : Bool} {task : τ → Resolving} {x : τ} {t : Resolving}
  {as : List HttpOutcome}

/-- A task that does not fetch before or after the step. -/
theorem other (h : LockInv unusable locked task) (ht : ∀ bs, t ≠ .fetching bs) :
    LockInv unusable locked (Function.update task x t) := by
  have hold : ∀ y bs, Function.update task x t y = .fetching bs → task y = .fetching bs := by
    intro y bs hy
    by_cases hyx : y = x
    · rw [hyx, Function.update_self] at hy
      exact absurd hy (ht bs)
    · rwa [Function.update_of_ne hyx] at hy
  exact ⟨fun y bs hy => h.holds y bs (hold y bs hy),
    fun y z as bs hy hz => h.single y z as bs (hold y as hy) (hold z bs hz)⟩

/-- The task that fetches is done: none fetches. -/
theorem released (h : LockInv unusable locked task) (hx : task x = .fetching as)
    (ht : ∀ bs, t ≠ .fetching bs) {unusable' : Prop} {locked' : Bool} :
    LockInv unusable' locked' (Function.update task x t) := by
  have hnone : ∀ y bs, Function.update task x t y ≠ .fetching bs := by
    intro y bs hy
    by_cases hyx : y = x
    · rw [hyx, Function.update_self] at hy
      exact ht bs hy
    · rw [Function.update_of_ne hyx] at hy
      exact hyx (h.single y x bs as hy hx)
  exact ⟨fun y bs hy => absurd hy (hnone y bs), fun y z as bs hy => absurd hy (hnone y as)⟩

/-- The task that gets the lock is the only one that fetches. -/
theorem acquired (hnone : ∀ y bs, y ≠ x → task y ≠ .fetching bs) (hun : unusable) :
    LockInv unusable true (Function.update task x t) := by
  have hx : ∀ y bs, Function.update task x t y = .fetching bs → y = x := by
    intro y bs hy
    by_contra hyx
    rw [Function.update_of_ne hyx] at hy
    exact hnone y bs hyx hy
  exact ⟨fun y bs _ => ⟨rfl, hun⟩, fun y z as bs hy hz => (hx y as hy).trans (hx z bs hz).symm⟩

end LockInv

theorem CacheInv.step (h : CacheInv W s.clock s.cache s.received s.returned) (hC : Timely s a)
    (hs : StationStep W s a s') : CacheInv W s'.clock s'.cache s'.received s'.returned := by
  cases hs with
  | elapsed => exact h.elapsed
  | @hit x id hx hfree hid =>
      obtain ⟨c, hc, rfl, hage⟩ := cached_eq_some hid
      refine h.answered hc ?_
      rcases hC x (.inl rfl) c hc with ht | ht
      · exact ht
      · rw [h.ttl] at hage
        omega
  | retried hx hleft hmet he => exact h.refused hmet
  | fetched hx hres => exact h.stored (fetchActive_of_fetched hres)
  | failed hx hres => exact h.refused (fetchActive_of_fetched hres)
  | called | missed | unroutable | dropped | abandoned => exact h

theorem LockInv.step (h : LockInv (s.cache.cached s.clock = none) s.locked s.task)
    (hs : StationStep W s a s') :
    LockInv (s'.cache.cached s'.clock = none) s'.locked s'.task := by
  cases hs with
  | elapsed =>
      exact ⟨fun x as hx => ⟨(h.holds x as hx).1,
        cached_none_of_le (h.holds x as hx).2 (Nat.le_add_right _ _)⟩, h.single⟩
  | called | hit | dropped => exact h.other (by simp)
  | missed hx hfree hid =>
      refine acquired (fun y bs _ hy => ?_) hid
      rw [(h.holds y bs hy).1] at hfree
      cases hfree
  | @retried x as met e hx hleft hmet he =>
      rw [show s.locked = true from (h.holds x as hx).1]
      exact acquired (fun y bs hyx hy => hyx (h.single y x bs as hy hx)) (h.holds x as hx).2
  | fetched hx | failed hx | unroutable hx | abandoned hx => exact h.released hx (by simp)

/-- After a failed fetch the cache is of no use until one succeeds. -/
theorem expired_step
    (ih : Since StationAct.Fails (fun a => ¬ a.IsFetched) tr → s.cache.cached s.clock = none)
    (hl : LockInv (s.cache.cached s.clock = none) s.locked s.task) (hs : StationStep W s a s')
    (h : Since StationAct.Fails (fun a => ¬ a.IsFetched) (tr ++ [a])) :
    s'.cache.cached s'.clock = none := by
  have hold : ¬ a.Fails → s.cache.cached s.clock = none := fun hf =>
    ih ((since_snoc.mp h).resolve_left hf).1
  cases hs with
  | elapsed => exact cached_none_of_le (hold (by simp [StationAct.Fails])) (Nat.le_add_right _ _)
  | called | hit | missed | retried | dropped => exact hold (by simp [StationAct.Fails])
  | fetched =>
      rcases since_snoc.mp h with hf | ⟨-, hn⟩
      · simp [StationAct.Fails] at hf
      · exact absurd ⟨_, _, rfl⟩ hn
  | failed hx | unroutable hx | abandoned hx => exact (hl.holds _ _ hx).2

theorem documentedTtl_le : documentedTtl ≤ defaultActiveTtl := by decide

theorem CacheInv.run {clock : Nat} (h : Run (StationStep W) Timely (.start clock) tr s) :
    CacheInv W s.clock s.cache s.received s.returned := by
  refine h.invariant (I := fun _ s => CacheInv W s.clock s.cache s.received s.returned) ?_ ?_
  · exact ⟨rfl, fun _ _ hr => (by cases hr), fun _ hc => (by cases hc),
      fun _ _ _ hr => (by cases hr), fun _ _ ht => (by cases ht)⟩
  · rintro tr s a s' - ih hC hs
    exact ih.step hC hs

/-- **The active station is stale for 60 seconds at most**, in every run in which no call gets the
lock while the cached id is older and not yet 5 minutes old. -/
theorem bounded_staleness (W : WavelogJson) (clock : Nat)
    (h : Run (StationStep W) Timely (.start clock) tr s) : BoundedStaleness W tr s := by
  have hcache := CacheInv.run h
  have hlock : LockInv (s.cache.cached s.clock = none) s.locked s.task ∧
      (Since StationAct.Fails (fun a => ¬ a.IsFetched) tr → s.cache.cached s.clock = none) := by
    refine h.invariant (I := fun tr s => LockInv (s.cache.cached s.clock = none) s.locked s.task ∧
      (Since StationAct.Fails (fun a => ¬ a.IsFetched) tr → s.cache.cached s.clock = none)) ?_ ?_
    · exact ⟨⟨fun _ _ hx => (by cases hx), fun _ _ _ _ hx => (by cases hx)⟩,
        fun hf => absurd hf not_since_nil⟩
    · rintro tr s a s' - ih - hs
      exact ⟨ih.1.step hs, expired_step ih.2 ih.1 hs⟩
  refine ⟨hcache.fresh, ?_, ?_, hlock.1.single, ?_⟩
  · intro a s' hs ha
    cases hs with
    | elapsed | called | hit | missed | retried | fetched | dropped =>
        simp [StationAct.Fails] at ha
    | failed | unroutable | abandoned => rfl
  · intro hf x s' hs
    cases hs with
    | hit hx hfree hid =>
        rw [hlock.2 hf] at hid
        cases hid
  · intro x s' hs r met id hr hok
    cases hs with
    | missed hx hfree hid =>
        obtain ⟨c, hc, hrc⟩ := hcache.latest r met id hr hok
        have hage := cached_eq_none_iff.mp hid c hc
        have hle := documentedTtl_le
        rw [hcache.ttl] at hage
        have hpos : 0 < documentedTtl := by decide
        omega

/-- **In every other run it is not**: the first call that gets the lock in between returns a stale
id. -/
theorem stale_of_untimely {clock : Nat} (h : Run (StationStep W) Timely (.start clock) tr s)
    (hs : StationStep W s a s') (hC : ¬ Timely s a) : ¬ BoundedStaleness W (tr ++ [a]) s' := by
  intro hb
  have hcache := CacheInv.run h
  simp only [Timely, not_forall, not_or, Nat.not_le] at hC
  obtain ⟨x, hx, c, hc, hold, hyoung⟩ := hC
  rcases hx with rfl | rfl
  · cases hs with
    | hit _ _ hid =>
        obtain ⟨c', hc', rfl, -⟩ := cached_eq_some hid
        obtain ⟨r, met, hr, hok, -, hle⟩ := hb.fresh s.clock _ List.mem_cons_self
        obtain ⟨c'', hc'', hrc⟩ := hcache.latest r met _ hr hok
        obtain rfl : c'' = c := Option.some.inj (hc''.symm.trans hc)
        exact Nat.not_lt_of_le (Nat.le_trans hle (Nat.add_le_add_right hrc _)) hold
  · cases hs with
    | missed _ _ hid =>
        have hage := cached_eq_none_iff.mp hid c hc
        rw [hcache.ttl] at hage
        omega

end Runs

/-! ### A station that is looked up twice -/

/-- What `serde_json` makes of the rows of one active station. -/
def oneStation : WavelogJson where
  qsoResponse _ := none
  stationInfo body :=
    if body = "[\x7b\"station_id\":\"7\",\"station_active\":\"1\"\x7d]".toList then
      some [{ stationId := ['7'], stationActive := some ['1'] }]
    else none

def stationAnswer : HttpOutcome :=
  .answered 200 (some "[\x7b\"station_id\":\"7\",\"station_active\":\"1\"\x7d]".toList)

theorem station_found :
    findActiveStation oneStation ([] ++ [stationAnswer]) = some (.ok ['7']) := by
  decide +kernel

def twoLookUps (time : Nat) : List (StationAct Unit) :=
  [.called (), .missed (), .fetched () stationAnswer, .elapsed time, .called (), .hit ()]

def keptStation (time : Nat) : Stations Unit where
  clock := time
  cache := { state := some { id := ['7'], fetchedAt := 0 }, ttl := defaultActiveTtl }
  locked := false
  task _ := .idle
  received := [(0, stationAnswer)]
  returned := [(time, ['7']), (0, ['7'])]

/-- Two calls, the second of which is answered from the cache. -/
theorem looked_up_twice {C : Stations Unit → StationAct Unit → Prop} (time : Nat)
    (hC : ∀ s a, (s.cache.state = none ∨ ∀ x, a ≠ .hit x ∧ a ≠ .missed x) → C s a)
    (hhit : ∀ s, s.clock = time → s.cache.state = some { id := ['7'], fetchedAt := 0 } →
      C s (.hit ())) (htime : time < defaultActiveTtl) :
    Run (StationStep oneStation) C (.start 0) (twoLookUps time) (keptStation time) := by
  have hstart : Run (StationStep oneStation) C (.start 0) [] _ := .nil
  have hmissed := (hstart.extend (.called (x := ()) rfl) (hC _ _ (.inl rfl))).extend
    (.missed (x := ()) rfl rfl rfl) (hC _ _ (.inl rfl))
  have hfetched := hmissed.extend (.fetched (x := ()) rfl station_found) (hC _ _ (.inl rfl))
  have hcalled := (hfetched.extend (.elapsed time) (hC _ _ (.inr (by simp)))).extend
    (.called (x := ()) rfl) (hC _ _ (.inr (by simp)))
  have hage : 0 + time - 0 < defaultActiveTtl := by
    rw [Nat.sub_zero, Nat.zero_add]
    exact htime
  have hid : ActiveStationCache.cached
      { state := some { id := ['7'], fetchedAt := 0 }, ttl := defaultActiveTtl } (0 + time) =
        some ['7'] := if_pos hage
  have hrun := hcalled.extend (.hit (x := ()) rfl rfl hid) (hhit _ (Nat.zero_add _) rfl)
  have hidle : ∀ task : Unit → Resolving, Function.update task () .idle = fun _ => .idle := by
    intro task
    funext u
    exact Function.update_self (β := fun _ : Unit => Resolving) u _ _
  rw [hidle] at hrun
  simpa [Stations.start, ActiveStationCache.active, twoLookUps, keptStation] using hrun

/-- An id that is returned a second time after 60 seconds. -/
theorem station_kept :
    BoundedStaleness oneStation (twoLookUps documentedTtl) (keptStation documentedTtl) := by
  have hC : ∀ (s : Stations Unit) a,
      (s.cache.state = none ∨ ∀ x, a ≠ .hit x ∧ a ≠ .missed x) → Timely s a := by
    rintro s a (hnone | ha) x hx c hc
    · rw [hnone] at hc
      cases hc
    · rcases hx with rfl | rfl
      · exact absurd rfl (ha x).1
      · exact absurd rfl (ha x).2
  have hhit : ∀ s : Stations Unit, s.clock = documentedTtl →
      s.cache.state = some { id := ['7'], fetchedAt := 0 } → Timely s (.hit ()) := by
    rintro s ht hs x - c hc
    rw [hs] at hc
    cases hc
    exact .inl (by rw [ht]; exact Nat.le_add_left _ _)
  exact bounded_staleness oneStation 0 (looked_up_twice documentedTtl hC hhit (by decide))

/-- **An id is returned 61 seconds after it was received.** -/
theorem stale_station : ¬ ∀ (τ : Type) [DecidableEq τ] (W : WavelogJson) (clock : Nat)
    (tr : List (StationAct τ)) (s : Stations τ),
    Run (StationStep W) Always (.start clock) tr s → BoundedStaleness W tr s := fun h => by
  have hrun := looked_up_twice (C := Always) (61 * second) (fun _ _ _ => trivial)
    (fun _ _ _ => trivial) (by decide)
  have hfresh := (h Unit oneStation 0 _ _ hrun).fresh (61 * second) ['7'] (.head _)
  obtain ⟨r, met, hmem, -, -, hle⟩ := hfresh
  obtain ⟨rfl, rfl⟩ := Prod.mk.inj (List.mem_singleton.mp hmem)
  exact absurd hle (by decide)

end WavelogRelay.Wavelog
