import WavelogRelay.Modes
import WavelogRelay.Rig.Account

/-!
# Listener — the click-to-tune handler

`listener.rs`: `tune` checks a request and makes a `set_freq_mode` of it; `tuned` is the answer once
the rig has replied.  Each request that reaches the handler has a stage.  `Step` is one step of a
handler, or of the actor of the rig and its clients, of which the handlers are some.

The wire record of `Rig.Recorded` is kept beside the system.
-/

namespace WavelogRelay.Listener
open Library Rig Modes

/-! ### The handler -/

/-- What the handler reads of a request: its `Origin` headers, and the two segments of its path,
decoded. -/
structure Request where
  origins : List Bytes
  freqSegment : Text
  modeSegment : Text
  deriving DecidableEq, Repr

structure AppState where
  overrides : ModeOverrides
  allowOrigin : Bytes
  deriving DecidableEq, Repr

/-- 200, 400, 403 and 502. -/
inductive StatusCode where
  | ok
  | badRequest
  | forbidden
  | badGateway
  deriving DecidableEq, Repr

/-- `tune` up to its `set_freq_mode`: the status it answers at once, or what it asks of the rig. -/
def tune (state : AppState) (req : Request) : Except StatusCode (UInt64 × HamlibMode) :=
  -- a request without an origin is accepted, and of several the first is looked at
  if req.origins.head?.any (· != state.allowOrigin) then .error .forbidden
  else
    match parseU64 req.freqSegment with
    | none => .error .badRequest
    | some freq =>
        match Mode.fromStr req.modeSegment with
        | .error _ => .error .badRequest
        | .ok mode => .ok (freq, mode.resolve state.overrides)

/-- The rest of `tune`, once the rig has replied. -/
def tuned {F : Type} : Except RigError (Reply F) → StatusCode
  | .error _ => .badGateway
  | .ok _ => .ok

/-! ### The system -/

/-- Where the handler of a request is. -/
inductive Stage where
  | arrived
  | setting (job : Job)
  /-- `job` is what it has asked of the rig, if anything. -/
  | answered (job : Option Job) (status : StatusCode)
  /-- The client is gone, and the handler with it. -/
  | dropped (job : Option Job)
  deriving DecidableEq, Repr

/-- What a handler has asked of the rig. -/
def Stage.job? : Stage → Option Job
  | .arrived => none
  | .setting job => some job
  | .answered job _ | .dropped job => job

/-- The answer to the request. -/
def Stage.status? : Stage → Option StatusCode
  | .answered _ status => some status
  | _ => none

/-- The rig and its record, the replies that the actor has sent, and the stage of each request. -/
structure System (ν F : Type) where
  rig : World F
  record : Record
  replies : List (Job × Except RigError (Reply F))
  stage : ν → Stage

inductive Act (ν F : Type) where
  | refused (c : ν) (status : StatusCode)
  | dispatched (c : ν) (job : Job)
  /-- A step of the actor or of one of its clients. -/
  | rig (a : Rig.Act F)
  | resumed (c : ν) (status : StatusCode)
  | dropped (c : ν)

section System

variable {ν F : Type} [DecidableEq ν]

def System.start : System ν F where
  rig := .spawn
  record := []
  replies := []
  stage _ := .arrived

def System.setStage (s : System ν F) (c : ν) (stage : Stage) : System ν F :=
  { s with stage := Function.update s.stage c stage }

@[simp] theorem System.setStage_replies (s : System ν F) (c : ν) (stage : Stage) :
    (s.setStage c stage).replies = s.replies := rfl

theorem System.setStage_stage (s : System ν F) (c : ν) (stage : Stage) (c' : ν) :
    (s.setStage c stage).stage c' = if c' = c then stage else s.stage c' :=
  Function.update_apply _ _ _ _

/-- A stage that does not wait for the rig leaves the others that do. -/
theorem System.setting_of_setStage {s : System ν F} {c : ν} {stage : Stage}
    (hs : ∀ job, stage ≠ .setting job) {c' : ν} {job : Job}
    (h : (s.setStage c stage).stage c' = .setting job) : c' ≠ c ∧ s.stage c' = .setting job := by
  rw [System.setStage_stage] at h
  split at h
  · exact absurd h (hs job)
  · rename_i hne
    exact ⟨hne, h⟩

/-- What the system says on the wire for a request. -/
def System.eventsOf (s : System ν F) (c : ν) : List WireEvent :=
  match (s.stage c).job? with
  | some job => onBehalf s.record job
  | none => []

/-- `request c` is what the handler reads of the request `c`. -/
inductive Step (R : F32 F) (state : AppState) (request : ν → Request) :
    System ν F → Act ν F → System ν F → Prop where
  | refused {s : System ν F} {c : ν} {status : StatusCode} (hc : s.stage c = .arrived)
      (ht : tune state (request c) = .error status) :
      Step R state request s (.refused c status) (s.setStage c (.answered none status))
  | dispatched {s : System ν F} {c : ν} {freq : UInt64} {mode : HamlibMode}
      (hc : s.stage c = .arrived) (ht : tune state (request c) = .ok (freq, mode))
      (hh : s.rig.handles = true) :
      Step R state request s (.dispatched c ⟨s.rig.requests, .setFreqMode freq mode⟩)
        { s.setStage c (.setting ⟨s.rig.requests, .setFreqMode freq mode⟩) with
          rig := { s.rig with
            requests := s.rig.requests + 1
            waiting := s.rig.waiting ++ [⟨s.rig.requests, .setFreqMode freq mode⟩] } }
  -- a request of a handler that still waits is not dropped
  | rig {s : System ν F} {a : Rig.Act F} {w : World F} (hs : Rig.Step R s.rig a w)
      (ha : ∀ job, a = .abandoned job → ∀ c, s.stage c ≠ .setting job) :
      Step R state request s (.rig a)
        { s with rig := w, record := s.record ++ (entry s.rig a).toList,
                 replies := s.replies ++ a.answer.toList }
  | resumed {s : System ν F} {c : ν} {job : Job} {res : Except RigError (Reply F)}
      (hc : s.stage c = .setting job) (hr : (job, res) ∈ s.replies) :
      Step R state request s (.resumed c (tuned res))
        (s.setStage c (.answered (some job) (tuned res)))
  | dropped {s : System ν F} {c : ν} (hc : (s.stage c).status? = none) :
      Step R state request s (.dropped c) (s.setStage c (.dropped (s.stage c).job?))

end System

end WavelogRelay.Listener
