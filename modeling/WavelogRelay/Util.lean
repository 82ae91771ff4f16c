import WavelogRelay.Library.Watch

/-!
# Util — the shutdown channel and durations

What the tasks that watch the shutdown channel have in common, and `std::time::Duration`.
-/

namespace WavelogRelay
open Library

/-- A `Duration`, in nanoseconds. -/
abbrev Duration := Nat

def nanosPerSec : Nat := 1000000000

/-- `shutdown_observed`, on what `changed` returned. -/
def shutdownObserved (changedOk : Bool) (shutdown : Watch Bool) : Bool :=
  !changedOk || shutdown.value

/-- Nothing on the channel asks for shutdown. -/
structure Unasked (shutdown : Watch Bool) : Prop where
  value : shutdown.value = false
  alive : shutdown.closed = false

/-- A notification is then of an update, and not one to stop. -/
theorem Unasked.not_observed {shutdown : Watch Bool} {seen seen' : Nat} {ok : Bool}
    (h : Unasked shutdown) (hc : shutdown.changed seen = some (ok, seen')) :
    shutdown.version ≠ seen ∧ shutdownObserved ok shutdown = false := by
  obtain ⟨-, herr, hok⟩ := Watch.changed_spec hc
  cases ok with
  | false => exact absurd (h.alive.symm.trans (herr rfl).2) nofun
  | true => exact ⟨hok rfl, by simp [shutdownObserved, h.value]⟩

/-! ### Receivers -/

/-- A task that has seen the version `seen` and goes on has not been asked to stop by it. -/
abbrev Awake (shutdown : Watch Bool) (seen : Nat) : Prop := shutdown.Follows (· = false) seen

theorem Awake.told {shutdown : Watch Bool} {seen seen' : Nat} {ok : Bool}
    (hc : shutdown.changed seen = some (ok, seen'))
    (hobs : shutdownObserved ok shutdown = false) : Awake shutdown seen' :=
  Watch.Follows.told hc (Bool.or_eq_false_iff.mp hobs).2

/-- **Once it is asked to stop, it is told**, and stops. -/
theorem Awake.stops {shutdown : Watch Bool} {seen : Nat} (h : Awake shutdown seen)
    (hv : shutdown.value = true) :
    shutdown.changed seen = some (true, shutdown.version) ∧
      shutdownObserved true shutdown = true :=
  ⟨h.ready (by simp [hv]), hv⟩

/-- `wait_for_shutdown`: before its first look, at its `changed`, or resolved. -/
inductive Waiter where
  | spawned
  | waiting (seen : Nat)
  | resolved
  deriving DecidableEq, Repr

/-- A step of `wait_for_shutdown`. -/
inductive Waiter.Step (shutdown : Watch Bool) : Waiter → Waiter → Prop where
  | returns (hs : shutdown.value = true) : Step shutdown .spawned .resolved
  | waits (hs : shutdown.value = false) : Step shutdown .spawned (.waiting shutdown.version)
  | notified {seen seen' : Nat} {ok : Bool} (hc : shutdown.changed seen = some (ok, seen')) :
      Step shutdown (.waiting seen)
        (if shutdownObserved ok shutdown then .resolved else .waiting seen')

/-- What the future has seen. -/
def Waiter.Awake (shutdown : Watch Bool) : Waiter → Prop
  | .waiting seen => WavelogRelay.Awake shutdown seen
  | .spawned | .resolved => True

theorem Waiter.Awake.step {shutdown : Watch Bool} {x x' : Waiter} (h : Waiter.Step shutdown x x') :
    x'.Awake shutdown := by
  cases h with
  | returns => trivial
  | waits hs => exact .borrow hs
  | @notified seen seen' ok hc =>
      cases hobs : shutdownObserved ok shutdown with
      | true => trivial
      | false => exact WavelogRelay.Awake.told hc hobs

end WavelogRelay
