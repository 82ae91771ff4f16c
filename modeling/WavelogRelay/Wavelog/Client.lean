import WavelogRelay.Library.Text

/-!
# Wavelog — the HTTP client

`wavelog/client.rs` and `wavelog/station.rs`.  What a request meets on the network is its
argument, so a call that makes several requests takes the list of what they met.  `withRetries` has
a value exactly on the lists the retry loop can meet, none left over.

The client sets no redirect policy, and `reqwest` follows redirects: what `send` returns is the
last response (`HttpOutcome`), and the POST of a QSO may have met others before it (`Exchange`).

The response bodies are read by `serde_json`, a parameter (`WavelogJson`).

* `withRetries_spec`: at most three attempts, every one but the last ended by an error that is
  retried.
* `doQsoPost_settles_iff`: a POST settles the submission, one way or the other, exactly when it is
  answered with a 2xx status and a body that parses.
* `pushOne_spec`: which attempts a push makes; `pushOne_settles`: one that settles the submission
  came to such an answer, if not to a POST then to the GET that a redirect made of it.
-/

namespace WavelogRelay.Wavelog
open Library

inductive WavelogError where
  | invalidUrl (url : Text)
  | http
  | status (status : UInt16) (body : Text)
  | rejected (reason : Text)
  | noActiveStation
  | badResponse (body : Text)
  deriving DecidableEq, Repr

/-- What `send` returns: no response, or the status and, if it can be read, the body of one.  Where
redirects were followed it is the last one, and `failed` when there were too many. -/
inductive HttpOutcome where
  | failed
  | answered (status : UInt16) (body : Option Text)
  deriving DecidableEq, Repr

/-- A response with a `Location` that `reqwest` follows. -/
inductive Redirect where
  | movedPermanently
  | found
  | seeOther
  | temporaryRedirect
  | permanentRedirect
  deriving DecidableEq, Repr

def Redirect.status : Redirect → UInt16
  | .movedPermanently => 301
  | .found => 302
  | .seeOther => 303
  | .temporaryRedirect => 307
  | .permanentRedirect => 308

/-- A POST is made again at the `Location`, with its body; else it is a GET that follows. -/
def Redirect.repeats : Redirect → Bool
  | .movedPermanently | .found | .seeOther => false
  | .temporaryRedirect | .permanentRedirect => true

/-- One `send` of a POST: the redirects that are followed, and what `send` returns. -/
structure Exchange where
  redirects : List Redirect
  last : HttpOutcome
  deriving DecidableEq, Repr

/-- What the POSTs of an exchange are answered with, in order.  The body of a redirect that is
followed is not read. -/
def postsOf : List Redirect → HttpOutcome → List HttpOutcome
  | [], last => [last]
  | r :: rs, last => .answered r.status none :: if r.repeats then postsOf rs last else []

def Exchange.posts (x : Exchange) : List HttpOutcome := postsOf x.redirects x.last

/-- No redirect makes a GET of it. -/
def Exchange.StaysPost (x : Exchange) : Prop := ∀ r ∈ x.redirects, r.repeats = true

structure QsoResponse where
  status : Option Text
  reason : Option Text
  deriving DecidableEq, Repr

structure StationInfoRow where
  stationId : Text
  stationActive : Option Text
  deriving DecidableEq, Repr

structure Station where
  id : Text
  active : Bool
  deriving DecidableEq, Repr

/-- `serde_json::from_str` at the two response types. -/
structure WavelogJson where
  qsoResponse : Text → Option QsoResponse
  stationInfo : Text → Option (List StationInfoRow)

def isRetryable : WavelogError → Bool
  | .http => true
  | .status status _ => 500 ≤ status
  | .invalidUrl _ => false
  | .rejected _ => false
  | .noActiveStation => false
  | .badResponse _ => false

/-- `StatusCode::is_success`. -/
def isSuccess (status : UInt16) : Bool := 200 ≤ status && status < 300

/-! ### One request -/

def doRadioPost : HttpOutcome → Except WavelogError Unit
  | .failed => .error .http
  | .answered status body =>
      if isSuccess status then .ok () else .error (.status status (body.getD []))

def doQsoPost (W : WavelogJson) : HttpOutcome → Except WavelogError Unit
  | .failed => .error .http
  | .answered status body =>
      if isSuccess status then
        let body := body.getD []
        match W.qsoResponse body with
        | none => .error (.badResponse body)
        | some parsed =>
            if parsed.status = some "created".toList then .ok ()
            else .error (.rejected ((parsed.reason.or parsed.status).getD "unknown".toList))
      else .error (.status status (body.getD []))

/-- `Station::from`. -/
def stationOf (row : StationInfoRow) : Station :=
  { id := row.stationId, active := row.stationActive = some "1".toList }

def listStations (W : WavelogJson) : HttpOutcome → Except WavelogError (List Station)
  | .failed => .error .http
  | .answered status body =>
      let body := body.getD []
      if isSuccess status then
        match W.stationInfo body with
        | none => .error (.badResponse body)
        | some rows => .ok (rows.map stationOf)
      else .error (.status status body)

/-! ### Retries -/

/-- `RETRY_SLEEPS`, in seconds. -/
def retrySleeps : List Nat := [0, 1, 4]

/-- The loop of `with_retries` over the sleeps, after the error `last`. -/
def retryLoop {α : Type} : List Nat → Option WavelogError → List (Except WavelogError α) →
    Option (Except WavelogError α)
  -- `expect`: the list of sleeps is not empty, so some attempt has failed
  | [], last, [] => last.map .error
  | [], _, _ :: _ => none
  | _ :: _, _, [] => none
  | _ :: sleeps, _, res :: attempts =>
      match res with
      | .ok v => if attempts.isEmpty then some (.ok v) else none
      | .error e =>
          if isRetryable e then retryLoop sleeps (some e) attempts
          else if attempts.isEmpty then some (.error e) else none

def withRetries {α : Type} (attempts : List (Except WavelogError α)) :
    Option (Except WavelogError α) := retryLoop retrySleeps none attempts

def pushRadio (attempts : List HttpOutcome) : Option (Except WavelogError Unit) :=
  withRetries (attempts.map doRadioPost)

def pushQso (W : WavelogJson) (attempts : List Exchange) : Option (Except WavelogError Unit) :=
  withRetries (attempts.map fun x => doQsoPost W x.last)

/-- One attempt of `find_active_station`. -/
def fetchActive (W : WavelogJson) (met : HttpOutcome) : Except WavelogError Text := do
  let stations ← listStations W met
  match stations.find? (·.active) with
  | some active => return active.id
  | none => throw .noActiveStation

def findActiveStation (W : WavelogJson) (attempts : List HttpOutcome) :
    Option (Except WavelogError Text) :=
  withRetries (attempts.map (fetchActive W))

/-- How `StationSource::resolve` finds the id: it is fixed, it is cached, or it is looked up.  On
a base URL that takes no path, the look-up makes no request. -/
inductive Resolution where
  | fixed (id : Text)
  | cached (id : Text)
  | fetched (attempts : List HttpOutcome)
  | unroutable (url : Text)
  deriving DecidableEq, Repr

def resolve (W : WavelogJson) : Resolution → Option (Except WavelogError Text)
  | .fixed id => some (.ok id)
  | .cached id => some (.ok id)
  | .fetched attempts => findActiveStation W attempts
  | .unroutable url => withRetries [.error (.invalidUrl url)]

/-- `push_one`: resolve the station, then submit the QSO. -/
def pushOne (W : WavelogJson) (station : Resolution) (attempts : List Exchange) :
    Option (Except WavelogError Unit) :=
  match resolve W station with
  | none => none
  | some (.error e) => if attempts.isEmpty then some (.error e) else none
  | some (.ok _) => pushQso W attempts

/-! ### What the loop does -/

section Retries

variable {α : Type}

theorem singleton_eq_append {β : Type} {a r : β} {init : List β} (h : [a] = init ++ [r]) :
    init = [] ∧ a = r := by
  cases init with
  | nil => exact ⟨rfl, (List.cons.inj h).1⟩
  | cons _ _ => simp at h

/-- How the loop ends: at the last attempt, every one before it failed and was to be retried; and
with no attempt at all, with the error it had. -/
theorem retryLoop_spec : ∀ {sleeps : List Nat} {last : Option WavelogError}
    {attempts : List (Except WavelogError α)} {res : Except WavelogError α},
    retryLoop sleeps last attempts = some res →
      attempts.length ≤ sleeps.length ∧ (attempts = [] → last.map .error = some res) ∧
      ∀ init r, attempts = init ++ [r] → r = res ∧
        ∀ x ∈ init, ∃ e, x = .error e ∧ isRetryable e = true
  | [], last, [], res, h => ⟨Nat.le_refl _, fun _ => h, fun init r e => by simp at e⟩
  | [], _, _ :: _, _, h => by cases h
  | _ :: _, _, [], _, h => by cases h
  | s :: sleeps, last, .ok v :: attempts, res, h => by
      simp only [retryLoop] at h
      split at h
      · rename_i hnil
        cases h
        obtain rfl := List.isEmpty_iff.mp hnil
        refine ⟨by simp, nofun, fun init r heq => ?_⟩
        obtain ⟨rfl, rfl⟩ := singleton_eq_append heq
        exact ⟨rfl, nofun⟩
      · cases h
  | s :: sleeps, last, .error e :: attempts, res, h => by
      simp only [retryLoop] at h
      split at h
      · rename_i hretry
        obtain ⟨hlen, hnil, hlast⟩ := retryLoop_spec h
        refine ⟨Nat.succ_le_succ hlen, nofun, fun init r heq => ?_⟩
        cases init with
        | nil =>
            obtain ⟨rfl, rfl⟩ := List.cons.inj heq
            exact ⟨Option.some.inj (hnil rfl), nofun⟩
        | cons x init =>
            obtain ⟨rfl, htail⟩ := List.cons.inj heq
            obtain ⟨rfl, hinit⟩ := hlast init r htail
            refine ⟨rfl, fun x hx => ?_⟩
            rcases List.mem_cons.mp hx with rfl | hx
            · exact ⟨e, rfl, hretry⟩
            · exact hinit x hx
      · split at h
        · rename_i hnil
          cases h
          obtain rfl := List.isEmpty_iff.mp hnil
          refine ⟨by simp, nofun, fun init r heq => ?_⟩
          obtain ⟨rfl, rfl⟩ := singleton_eq_append heq
          exact ⟨rfl, nofun⟩
        · cases h

variable {attempts : List (Except WavelogError α)} {res : Except WavelogError α}

/-- **At least one attempt and at most three**, the last of which gives the result. -/
theorem withRetries_spec (h : withRetries attempts = some res) :
    attempts.length ≤ 3 ∧ ∃ init, attempts = init ++ [res] ∧
      ∀ x ∈ init, ∃ e, x = .error e ∧ isRetryable e = true := by
  obtain ⟨hlen, hnil, hlast⟩ := retryLoop_spec h
  rcases List.eq_nil_or_concat attempts with rfl | ⟨init, r, rfl⟩
  · cases hnil rfl
  · rw [List.concat_eq_append] at hlast
    obtain ⟨rfl, hinit⟩ := hlast init r rfl
    exact ⟨hlen, init, List.concat_eq_append, hinit⟩

/-- From whatever the attempts meet, the loop takes what it needs and returns. -/
theorem retryLoop_total : ∀ (sleeps : List Nat) (last : Option WavelogError)
    (outs : List (Except WavelogError α)), (sleeps = [] → last ≠ none) →
      sleeps.length ≤ outs.length → ∃ n res, retryLoop sleeps last (outs.take n) = some res
  | [], last, outs, hlast, _ => by
      cases last with
      | none => exact absurd rfl (hlast rfl)
      | some e => exact ⟨0, .error e, rfl⟩
  | _ :: _, _, [], _, hlen => absurd hlen (Nat.not_succ_le_zero _)
  | _ :: _, _, .ok v :: _, _, _ => ⟨1, .ok v, rfl⟩
  | _ :: sleeps, _, .error e :: outs, _, hlen => by
      by_cases hretry : isRetryable e = true
      · obtain ⟨n, res, h⟩ := retryLoop_total sleeps (some e) outs (fun _ => nofun)
          (Nat.le_of_succ_le_succ hlen)
        exact ⟨n + 1, res, by rw [List.take_succ_cons, retryLoop]; simp only [hretry, if_true, h]⟩
      · exact ⟨1, .error e, by simp [retryLoop, hretry]⟩

/-- **The loop returns**, whatever three attempts meet. -/
theorem withRetries_total {outs : List (Except WavelogError α)} (h : 3 ≤ outs.length) :
    ∃ n res, withRetries (outs.take n) = some res :=
  retryLoop_total retrySleeps none outs nofun h

end Retries

/-! ### Exchanges -/

theorem postsOf_ne_nil (rs : List Redirect) (last : HttpOutcome) : postsOf rs last ≠ [] := by
  cases rs <;> exact List.cons_ne_nil _ _

/-- Where each request is a POST, what `send` returns is the answer to one. -/
theorem Exchange.StaysPost.last_mem {x : Exchange} (h : x.StaysPost) : x.last ∈ x.posts := by
  obtain ⟨rs, last⟩ := x
  change last ∈ postsOf rs last
  induction rs with
  | nil => exact List.mem_singleton_self last
  | cons r rs ih =>
      rw [postsOf, if_pos (h r List.mem_cons_self)]
      exact List.mem_cons_of_mem _ (ih fun r' hr' => h r' (List.mem_cons_of_mem _ hr'))

/-! ### Definitive answers -/

/-- A 2xx answer whose body parses as a `QsoResponse`. -/
def Answered (W : WavelogJson) (met : HttpOutcome) : Prop :=
  ∃ status body, met = .answered status body ∧ isSuccess status ∧
    (W.qsoResponse (body.getD [])).isSome

/-- The results on which an entry is removed: created, or rejected. -/
def Settles : Except WavelogError Unit → Prop
  | .ok _ => True
  | .error (.rejected _) => True
  | .error _ => False

variable {W : WavelogJson}

/-- **A POST settles the submission exactly when it is answered.** -/
theorem doQsoPost_settles_iff {met : HttpOutcome} : Settles (doQsoPost W met) ↔ Answered W met := by
  cases met with
  | failed => simp [doQsoPost, Settles, Answered]
  | answered status body =>
      by_cases hs : isSuccess status
      · cases hp : W.qsoResponse (body.getD []) with
        | none => simp [doQsoPost, hs, hp, Settles, Answered]
        | some parsed =>
            have hans : Answered W (.answered status body) := ⟨status, body, rfl, hs, by simp [hp]⟩
            simp only [doQsoPost, hs, hp, hans, iff_true, if_true]
            split <;> trivial
      · simp [doQsoPost, hs, Settles, Answered]

/-- Looking a station up rejects nothing. -/
theorem fetchActive_not_rejected {met : HttpOutcome} {reason : Text} :
    fetchActive W met ≠ .error (.rejected reason) := by
  have hlist : listStations W met ≠ .error (.rejected reason) := by
    intro h
    cases met with
    | failed => cases h
    | answered status body =>
        simp only [listStations] at h
        split at h
        · split at h <;> cases h
        · cases h
  intro h
  unfold fetchActive at h
  cases hl : listStations W met with
  | error e =>
      rw [hl] at h
      cases h
      exact hlist hl
  | ok stations =>
      rw [hl] at h
      change (match stations.find? (·.active) with
        | some active => pure active.id
        | none => throw .noActiveStation) = Except.error (WavelogError.rejected reason) at h
      split at h <;> cases h

theorem resolve_not_settles {station : Resolution} {e : WavelogError}
    (h : resolve W station = some (.error e)) : ¬ Settles (.error e) := by
  cases station with
  | fixed id => cases h
  | cached id => cases h
  | fetched attempts =>
      obtain ⟨-, init, hmap, -⟩ := withRetries_spec h
      have hmem : Except.error e ∈ init ++ [Except.error e] := by simp
      rw [← hmap] at hmem
      obtain ⟨met, -, hmet⟩ := List.mem_map.mp hmem
      intro hs
      cases e with
      | rejected reason => exact fetchActive_not_rejected hmet
      | _ => exact hs
  | unroutable url =>
      cases h
      exact id

/-! ### The attempts of a push -/

/-- What a POST is repeated after. -/
def Retried : HttpOutcome → Prop
  | .failed => True
  | .answered status _ => 500 ≤ status

theorem retried_of_error {met : HttpOutcome} {e : WavelogError} (h : doQsoPost W met = .error e)
    (he : isRetryable e = true) : Retried met := by
  cases met with
  | failed => trivial
  | answered status body =>
      simp only [doQsoPost] at h
      split at h
      · split at h
        · cases h
          cases he
        · split at h <;> cases h
          cases he
      · cases h
        simpa [isRetryable, Retried] using he

/-- **A push**: with no station no attempt is made and nothing is settled; with one, at most three
are, the last of which gives the result, and each one before it came to what is to be repeated. -/
theorem pushOne_spec {station : Resolution} {attempts : List Exchange}
    {res : Except WavelogError Unit} (h : pushOne W station attempts = some res) :
    ((∃ e, resolve W station = some (.error e)) ∧ attempts = [] ∧ ¬ Settles res) ∨
      (∃ id, resolve W station = some (.ok id)) ∧ attempts.length ≤ 3 ∧
        ∃ init x, attempts = init ++ [x] ∧ (∀ y ∈ init, Retried y.last) ∧
          res = doQsoPost W x.last := by
  unfold pushOne at h
  split at h
  · cases h
  · rename_i e he
    split at h
    · rename_i hnil
      cases h
      exact .inl ⟨⟨e, he⟩, List.isEmpty_iff.mp hnil, resolve_not_settles he⟩
    · cases h
  · rename_i id hid
    obtain ⟨hlen, init, hmap, hinit⟩ := withRetries_spec h
    rw [List.length_map] at hlen
    obtain ⟨before, last, rfl, rfl, hlast⟩ := List.map_eq_append_iff.mp hmap
    obtain ⟨x, rfl, rfl⟩ := List.map_eq_singleton_iff.mp hlast
    refine .inr ⟨⟨id, hid⟩, hlen, before, x, rfl, fun y hy => ?_, rfl⟩
    obtain ⟨e, he, hretry⟩ := hinit _ (List.mem_map_of_mem hy)
    exact retried_of_error he hretry

/-- **A push that settles the submission came to an answer.** -/
theorem pushOne_settles {station : Resolution} {attempts : List Exchange}
    {res : Except WavelogError Unit} (h : pushOne W station attempts = some res)
    (hres : Settles res) : ∃ x ∈ attempts, Answered W x.last := by
  obtain ⟨-, -, hno⟩ | ⟨-, -, init, x, rfl, -, rfl⟩ := pushOne_spec h
  · exact absurd hres hno
  · exact ⟨x, by simp, doQsoPost_settles_iff.mp hres⟩

/-- **A push returns**, whatever its attempts meet. -/
theorem pushOne_total {station : Resolution} (hs : resolve W station ≠ none)
    {outs : List Exchange} (h : 3 ≤ outs.length) :
    ∃ n res, pushOne W station (outs.take n) = some res := by
  cases hr : resolve W station with
  | none => exact absurd hr hs
  | some r =>
      cases r with
      | error e => exact ⟨0, .error e, by simp [pushOne, hr]⟩
      | ok id =>
          have hlen : 3 ≤ (outs.map fun x => doQsoPost W x.last).length := by simpa using h
          obtain ⟨n, res, hn⟩ := withRetries_total hlen
          exact ⟨n, res, by rw [pushOne, hr, pushQso, List.map_take, hn]⟩

end WavelogRelay.Wavelog
