import WavelogRelay.Daemon.Signal
import WavelogRelay.Relay.Effort

/-!
# Daemon — what is left to do after the signal

Once the channel holds `true`, each step that a task takes of its own accord leaves it less to do.
A tick, the end of a reconnect sleep, a click-to-tune request and a datagram bring it more.

* `Bound`: at most so many steps of its own are left to the daemon.
* `Bound.step`: those of the daemon, in a step of any kind.
-/

namespace WavelogRelay
open Library

/-! ### The pipeline -/

namespace Wsjtx
open Queue (Disk SerdeJson)
open Wavelog (WavelogJson)

/-- An item that is sent has five steps before it, four of them of the worker. -/
def Listener.left : Listener → Nat
  | .stopped => 0
  | .spawned _ | .receiving => 1
  | .replaying rest => 5 * rest.length + 2
  | .sending _ => 6
  | .appending _ => 7

def Worker.left : Worker → Nat
  | .stopped => 0
  | .spawned | .idle => 1
  | .removing _ => 2
  | .finishing _ _ => 3
  | .pushing _ => 4

def Proc.left (p : Proc) : Nat := p.listener.left + p.worker.left + 4 * p.chan.length

def Act.own : Act → Bool
  | .received _ _ => false
  | _ => true

theorem left_afterAppend (adif : Text) (res : Except Queue.QsoQueueError UInt64) :
    (afterAppend adif res).left ≤ 6 := by
  cases res <;> simp [afterAppend, Listener.left]

theorem left_handlePostOutcome (res : Except Wavelog.WavelogError Unit) (item : QueueItem) :
    (handlePostOutcome res item).left ≤ 2 := by
  rcases res with e | _ <;> rcases item with ⟨_ | _, _⟩ <;>
    simp only [handlePostOutcome] <;> (try split) <;> simp [Worker.left]

variable {J : SerdeJson} {W : WavelogJson} {disk disk' : Disk} {p p' : Proc} {a : Act}

/-- Of a process that stops its worker there is left what is left to its listener. -/
theorem left_stopWorker (p : Proc) : p.stopWorker.left = p.listener.left := by
  simp [Proc.left, Worker.left]

theorem Proc.left_step (hv : p.shutdown.value = true)
    (hs : Step J W ⟨disk, some p⟩ a ⟨disk', some p'⟩) (ha : a.isUpdate = false)
    (hne : (⟨disk', some p'⟩ : World) ≠ ⟨disk, some p⟩) :
    p'.left + a.own.toNat ≤ p.left + 6 * (!a.own).toNat := by
  have hobs : ∀ ok, shutdownObserved ok p.shutdown = true := fun ok => by
    simp [shutdownObserved, hv]
  cases hs with
  | shutdown | senderDropped => cases ha
  | recvFailed | ignored => exact absurd rfl hne
  -- the listener
  | listenerReturns h | tryClosed h | replayClosed h =>
      simp only [Proc.left, h, Listener.left, Act.own, Bool.toNat_true]
      omega
  | listenerStarts _ hs => exact Bool.noConfusion (hv.symm.trans hs)
  | replaySent h =>
      simp only [Proc.left, h, Listener.left, Act.own, Bool.toNat_true, List.length_cons,
        List.length_append, List.length_nil]
      omega
  | replayNotified h | listenerNotified h =>
      simp only [hobs, if_true, Proc.left, h, Listener.left, Act.own, Bool.toNat_true]
      omega
  | replayDone h =>
      simp only [Proc.left, h, Listener.left, Act.own, Bool.toNat_true, List.length_nil]
      omega
  | received h =>
      simp only [Proc.left, h, Listener.left, Act.own, Bool.not_false, Bool.toNat_true,
        Bool.toNat_false]
      omega
  | @appended _ _ _ adif _ _ res h =>
      have hold : p.listener.left = 7 := by rw [h]; rfl
      have hnew := left_afterAppend adif res
      simp only [Proc.left, hold, Act.own, Bool.toNat_true]
      omega
  | trySent h =>
      simp only [Proc.left, h, Listener.left, Act.own, Bool.toNat_true, List.length_append,
        List.length_cons, List.length_nil]
      omega
  | tryFull h =>
      simp only [Proc.left, h, Listener.left, Act.own, Bool.toNat_true]
      omega
  -- the worker
  | workerReturns h | chanEnded h =>
      rw [left_stopWorker]
      simp only [Proc.left, h, Worker.left, Act.own, Bool.toNat_true]
      omega
  | workerStarts _ hs => exact Bool.noConfusion (hv.symm.trans hs)
  | taken h hchan =>
      simp only [Proc.left, h, hchan, Worker.left, Act.own, Bool.toNat_true, List.length_cons]
      omega
  | workerNotified h | pushNotified h =>
      rw [hobs, if_pos rfl, left_stopWorker]
      simp only [Proc.left, h, Worker.left, Act.own, Bool.toNat_true]
      omega
  | posted h =>
      simp only [Proc.left, h, Worker.left, Act.own, Bool.toNat_true]
      omega
  | @finished _ _ item res _ h =>
      have hold : p.worker.left = 3 := by rw [h]; rfl
      have hnew := left_handlePostOutcome res item
      simp only [Proc.left, hold, Act.own, Bool.toNat_true]
      omega
  | removed h =>
      simp only [Proc.left, h, Worker.left, Act.own, Bool.toNat_true]
      omega

end Wsjtx

/-! ### The daemon -/

namespace Daemon

def Serve.left : Serve → Nat
  | .serving .resolved => 1
  | .serving _ => 2
  | .returned => 0

theorem Serve.left_lt {shutdown : Watch Bool} {Drained : Prop} {x x' : Serve}
    (hv : shutdown.value = true) (hs : Serve.Step shutdown Drained x x') : x'.left < x.left := by
  cases hs with
  | notified hs =>
      cases hs with
      | returns => exact Nat.lt_succ_self 1
      | waits h => exact Bool.noConfusion (hv.symm.trans h)
      | notified =>
          rw [if_pos (by simp [shutdownObserved, hv])]
          exact Nat.lt_succ_self 1
  | returned => exact Nat.lt_succ_self 0

/-- The tasks that are left to join. -/
def Main.left : Main → Nat
  | .joining .poller => 6
  | .joining .listener => 5
  | .joining .ws => 4
  | .joining .wsjtxListener => 3
  | .joining .wsjtxWorker => 2
  | .joining .rig => 1
  | .opening | .waiting | .returned | .failed _ | .aborted => 0

theorem Task.left_next (task : Task) : task.next.left < (Main.joining task).left := by
  cases task <;> exact Nat.lt_succ_self _

theorem Task.left_pos (task : Task) : 0 < (Main.joining task).left := by
  cases task <;> exact Nat.succ_pos _

variable {κ ν F : Type}

/-- A step that a task takes of its own accord. -/
def Act.own : Act κ ν F → Bool
  | .relay a => a.own
  | .pipeline a => a.own
  | .joined _ | .aborted | .http | .ws => true
  | .opened _ _ | .openFailed _ _ | .signal => false

/-- A tick, the end of a reconnect sleep, a click-to-tune request or a datagram. -/
def Act.work : Act κ ν F → Bool
  | .relay a => a.work
  | .pipeline a => !a.own
  | _ => false

def pipelineLeft (w : Wsjtx.World) : Nat := w.proc.elim 0 Wsjtx.Proc.left

/-- At most `n` steps of their own are left to the tasks. -/
def Bound (n : Nat) (w : World κ ν F) : Prop :=
  ∃ m, Relay.Bound m w.relay ∧
    m + pipelineLeft w.pipeline + w.http.left + w.ws.left + w.main.left ≤ n

variable [DecidableEq κ] [DecidableEq ν] {P : Setup κ F} {w w' : World κ ν F} {a : Act κ ν F}

omit [DecidableEq κ] in
theorem pipelineLeft_aborted {w w' : Wsjtx.World}
    (hs : Wsjtx.Step P.serde P.wavelog w .aborted w') : pipelineLeft w' = 0 := by
  cases hs <;> rfl

omit [DecidableEq κ] in
theorem pipelineLeft_step {w w' : Wsjtx.World} {a : Wsjtx.Act}
    (hv : ∀ p, w.proc = some p → p.shutdown.value = true)
    (hs : Wsjtx.Step P.serde P.wavelog w a w') (ha : a.isUpdate = false)
    (hsame : Wsjtx.SameProcess a) (hproc : w'.proc.isSome) (hne : w' ≠ w) :
    pipelineLeft w' + a.own.toNat ≤ pipelineLeft w + 6 * (!a.own).toNat := by
  obtain ⟨disk, _ | p⟩ := w
  · cases hs <;> exact hsame.elim
  obtain ⟨disk', _ | p'⟩ := w'
  · cases hproc
  exact Wsjtx.Proc.left_step (hv p rfl) hs ha hne

theorem Bound.step {n : Nat} (h : Bound n w) (hat : w.Attends) (hm : w.main.Asked)
    (hs : Step P w a w') : ∃ m, Bound m w' ∧ m + a.own.toNat ≤ n + 16 * a.work.toNat := by
  have hv := hat.asked hm
  obtain ⟨m, hb, hn⟩ := h
  cases hs with
  | opened h | openFailed h | signal h =>
      rw [h] at hm
      exact hm.elim
  | @joined task h =>
      have hlt := task.left_next
      rw [h] at hn
      exact ⟨_, ⟨m, hb, Nat.le_refl _⟩, by simp only [Act.own, Act.work, Bool.toNat_true]; omega⟩
  | @aborted p h hs =>
      obtain ⟨task, ht⟩ : ∃ task, w.main = .joining task := by
        cases hmain : w.main with
        | joining task => exact ⟨task, rfl⟩
        | _ =>
            rw [hmain] at h hm
            first | exact h.elim | exact hm.elim
      have hpos := task.left_pos
      have hnone := pipelineLeft_aborted hs
      rw [ht] at hn
      refine ⟨m + w.http.left + w.ws.left, ⟨m, hb, ?_⟩, ?_⟩
      · simp [hnone, Main.left]
      · simp only [Act.own, Act.work, Bool.toNat_true]
        omega
  | relay _ hs ha =>
      obtain ⟨m', hb', hle⟩ := hb.step hv ha.quiet hs
      exact ⟨_, ⟨m', hb', Nat.le_refl _⟩, by simp only [Act.own, Act.work]; omega⟩
  | http _ hs =>
      have hlt := Serve.left_lt hv hs
      exact ⟨_, ⟨m, hb, Nat.le_refl _⟩, by simp only [Act.own, Act.work, Bool.toNat_true]; omega⟩
  | ws _ hs =>
      have hlt := Serve.left_lt hv hs
      exact ⟨_, ⟨m, hb, Nat.le_refl _⟩, by simp only [Act.own, Act.work, Bool.toNat_true]; omega⟩
  | pipeline _ hs hupd hsame hproc hne =>
      have hle := pipelineLeft_step (fun p hp => (hat.one p hp).symm ▸ hv) hs hupd hsame hproc hne
      exact ⟨_, ⟨m, hb, Nat.le_refl _⟩, by simp only [Act.own, Act.work]; omega⟩

/-- There is a bound in every run. -/
theorem exists_bound {C : World κ ν F → Act κ ν F → Prop} {disk : Queue.Disk}
    {tr : List (Act κ ν F)} (h : Run (Step P) C (.start P disk) tr w) : ∃ n, Bound n w := by
  have hlisten : ∃ m, Listener.Bound m w.relay.listener := by
    refine (Relay.listener_run (relay_run h)).invariant
      (I := fun _ s => ∃ m, Listener.Bound m s) ?_ ?_
    · exact ⟨3, 3, ⟨2, ⟨2, .connecting, Nat.le_refl _⟩, Nat.le_refl _⟩, [], nofun, Nat.le_refl _⟩
    · intro tr s a s' _ ⟨m, hm⟩ _ hs
      obtain ⟨m', hm', -⟩ := hm.step hs
      exact ⟨m', hm'⟩
  obtain ⟨m, hm⟩ := hlisten
  exact ⟨_, _, ⟨m, hm, Nat.le_refl _⟩, Nat.le_refl _⟩

end Daemon

end WavelogRelay
