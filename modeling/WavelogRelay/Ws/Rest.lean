import WavelogRelay.Ws.Stream

/-!
# Ws — a connection that is let alone

A connection looks at the shutdown channel before it subscribes, and from then on waits for what it
has not seen.  While there is nothing to see there, a connection whose client reads sends what is
broadcast and then waits for more.

* `Server.Attends.step`: a connection that goes on has not been asked to stop by what it has seen.
* `ConnStep.left`: each step leaves it less to do, but for what its client does.
* `exists_rest`: it can come to wait with all frames sent, or be disconnected.
-/

namespace WavelogRelay.Ws
open Library Rig

/-! ### The shutdown channel -/

variable {F ν : Type}

/-- What a connection that goes on has seen of the channel. -/
def Phase.seen? : Phase → Option Nat
  | .subscribing seen | .welcoming seen _ | .selecting seen _ | .sending seen _ _ => some seen
  | .accepted | .closing | .returned => none

def Server.Attends (s : Server F ν) : Prop :=
  ∀ c seen, (s.conn c).seen? = some seen → Awake s.shutdown seen

theorem awake_of_connStep {tx : Broadcast Text} {shutdown : Watch Bool} {x y : Phase} {a : ConnAct}
    (h : ∀ seen, x.seen? = some seen → Awake shutdown seen) (hs : ConnStep tx shutdown x a y)
    {seen : Nat} (hy : y.seen? = some seen) : Awake shutdown seen := by
  cases hs with
  | refused | lagged | closeSent | sendFailed | hungUp | dropped => cases hy
  | admitted hup =>
      cases hy
      exact .borrow hup
  | subscribed | welcomed | received | frameSent | inbound => exact h seen hy
  | notified hc =>
      split at hy
      · cases hy
      · rename_i hobs
        cases hy
        exact .told hc (Bool.not_eq_true _ ▸ hobs)

theorem Server.Attends.step [DecidableEq ν] {S : FrameFormat F} {s s' : Server F ν} {a : Act F ν}
    (h : s.Attends) (hs : Step S s a s') : s'.Attends := by
  cases hs with
  | broadcast => exact h
  | shutdownSent value => exact fun c seen hc => (h c seen hc).send value
  | shutdownDropped => exact fun c seen hc => (h c seen hc).close
  | @conn c a p hs =>
      intro c' seen hc
      by_cases heq : c' = c
      · subst heq
        exact awake_of_connStep (h c') hs (by simpa using hc)
      · exact h c' seen (by simpa [Function.update_of_ne heq] using hc)

/-- On a channel that has not been used there is nothing to see. -/
theorem Server.Attends.not_changed {s : Server F ν} (h : s.Attends) (hnew : s.shutdown = .new false)
    {c : ν} {seen : Nat} (hc : (s.conn c).seen? = some seen) : s.shutdown.changed seen = none := by
  have hle := (h c seen hc).seen_le
  rw [hnew] at hle ⊢
  obtain rfl : seen = 0 := Nat.le_zero.mp hle
  rfl

/-! ### What is left to do -/

/-- A step that the connection takes of its own accord, or once its client has read. -/
def ConnAct.own : ConnAct → Bool
  | .inbound | .dropped => false
  | _ => true

/-- The steps left to a connection when `sent` frames have been sent. -/
def Phase.left (sent : Nat) : Phase → Nat
  | .accepted => 5
  | .subscribing _ => 4
  | .welcoming _ next | .sending _ next _ => 3 + 2 * (sent - next)
  | .selecting _ next => 2 + 2 * (sent - next)
  | .closing => 1
  | .returned => 0

variable {tx : Broadcast Text} {shutdown : Watch Bool} {p p' : Phase} {b : ConnAct}
  {hist : List Text}

/-- **A step leaves a connection less to do.** -/
theorem ConnStep.left (htx : tx.Holds hist)
    (hcalm : ∀ seen, p.seen? = some seen → shutdown.changed seen = none)
    (hs : ConnStep tx shutdown p b p') : p'.left tx.sent + b.own.toNat ≤ p.left tx.sent := by
  cases hs with
  | refused | admitted => exact Nat.le_of_ble_eq_true rfl
  | subscribed | welcomed | frameSent =>
      simp only [Phase.left, ConnAct.own, Bool.toNat_true]
      omega
  | notified hc => cases (hcalm _ rfl).symm.trans hc
  | received hr =>
      rcases Broadcast.recv_spec htx hr with ⟨hlag, -⟩ | ⟨x, -, hget, rfl⟩
      · cases hlag
      · have hlt := (List.getElem?_eq_some_iff.mp hget).1
        rw [← htx.sent] at hlt
        simp only [Phase.left, ConnAct.own, Bool.toNat_true]
        omega
  | lagged | hungUp => exact Nat.le_trans (Nat.le_of_ble_eq_true rfl) (Nat.le_add_right 2 _)
  | closeSent => exact Nat.le_refl _
  | sendFailed hm =>
      cases p with
      | accepted | subscribing | selecting | returned => cases hm
      | welcoming | sending => exact Nat.le_trans (Nat.le_of_ble_eq_true rfl) (Nat.le_add_right 3 _)
      | closing => exact Nat.le_refl _
  | inbound => exact Nat.le_refl _
  | dropped => exact Nat.zero_le _

/-- A frame more is two steps more. -/
theorem Phase.left_broadcast (p : Phase) (S : FrameFormat F) (h : WsHandle F) (state : RigState F)
    (now : UInt64) : p.left (h.broadcast S state now).tx.sent ≤ p.left h.tx.sent + 2 := by
  unfold WsHandle.broadcast
  cases h.frame S state now with
  | none => exact Nat.le_add_right _ _
  | some json =>
      change p.left (h.tx.sent + 1) ≤ _
      cases p <;> simp only [Phase.left] <;> omega

/-! ### Rest -/

/-- It waits for a frame, or it has ended or not begun. -/
def Phase.Resting (tx : Broadcast Text) : Phase → Prop
  | .accepted | .returned => True
  | .selecting _ next => tx.recv next = none
  | .subscribing _ | .welcoming _ _ | .sending _ _ _ | .closing => False

/-- A step that asks no more of the client than to read. -/
def ConnAct.Unaided : ConnAct → Prop
  | .check | .subscribe | .notified | .received | .lagged | .sent _ => True
  | .sendFailed _ _ | .inbound | .hungUp | .dropped => False

theorem ConnAct.Unaided.own (h : b.Unaided) : b.own = true := by
  cases b with
  | inbound | dropped => exact h.elim
  | _ => rfl

/-- A connection that does not rest has something to do. -/
theorem exists_turn (tx : Broadcast Text) (shutdown : Watch Bool) (h : ¬ p.Resting tx) :
    ∃ b p', ConnStep tx shutdown p b p' ∧ b.Unaided := by
  cases p with
  | accepted | returned => exact absurd trivial h
  | subscribing => exact ⟨_, _, .subscribed, trivial⟩
  | welcoming => exact ⟨_, _, .welcomed, trivial⟩
  | selecting seen next =>
      cases hr : tx.recv next with
      | none => exact absurd hr h
      | some r =>
          obtain ⟨r, next'⟩ := r
          cases r with
          | value frame => exact ⟨_, _, .received hr, trivial⟩
          | lagged => exact ⟨_, _, .lagged hr, trivial⟩
  | sending => exact ⟨_, _, .frameSent, trivial⟩
  | closing => exact ⟨_, _, .closeSent, trivial⟩

/-- What a step of a connection leaves as it is. -/
structure Keeps (s s' : Server F ν) : Prop where
  handle : s'.handle = s.handle
  shutdown : s'.shutdown = s.shutdown

/-- A server with nothing to see on the shutdown channel. -/
structure Server.Calm (s : Server F ν) : Prop where
  attends : s.Attends
  shutdown : s.shutdown = .new false
  holds : ∃ hist, s.handle.tx.Holds hist

variable [DecidableEq ν] {S : FrameFormat F} {s s' : Server F ν} {c : ν}

theorem Keeps.step (hs : Step S s (.conn c b) s') : Keeps s s' := by
  cases hs with
  | conn => exact ⟨rfl, rfl⟩

theorem Server.Calm.step (h : s.Calm) (hs : Step S s (.conn c b) s') : s'.Calm := by
  have hk := Keeps.step hs
  exact ⟨h.attends.step hs, hk.shutdown.trans h.shutdown, hk.handle ▸ h.holds⟩

theorem Server.Calm.left (h : s.Calm) (hs : Step S s (.conn c b) s') :
    (s'.conn c).left s'.handle.tx.sent + b.own.toNat ≤ (s.conn c).left s.handle.tx.sent := by
  obtain ⟨hist, hhold⟩ := h.holds
  rw [(Keeps.step hs).handle]
  exact hs.own.left hhold fun seen hseen => h.attends.not_changed h.shutdown hseen

/-- An act of `c` that asks no more of its client than to read. -/
def Act.ReadBy (c : ν) : Act F ν → Prop
  | .conn d b => d = c ∧ b.Unaided
  | _ => False

/-- One connection comes to rest, and the others stay as they are. -/
theorem exists_rest_of (S : FrameFormat F) (h : s.Calm) (c : ν) :
    ∃ tr s', Run (Step S) (fun _ a => a.ReadBy c) s tr s' ∧ Keeps s s' ∧ s'.Calm ∧
      (s'.conn c).Resting s'.handle.tx ∧ ∀ d, d ≠ c → s'.conn d = s.conn d := by
  have hstep : ∀ {x : Server F ν} {a : Act F ν} {x'}, x.Calm → a.ReadBy c → Step S x a x' →
      x'.Calm := by
    intro x a x' hx ha hs
    cases a with
    | conn => exact hx.step hs
    | _ => exact ha.elim
  obtain ⟨tr, s', hrun, hrest⟩ := Run.exists_done
    (C := fun _ (a : Act F ν) => a.ReadBy c)
    (fun n (x : Server F ν) => (x.conn c).left x.handle.tx.sent = n) Server.Calm
    (fun x => (x.conn c).Resting x.handle.tx) hstep
    (fun {x n} hx hn hdone => by
      obtain ⟨b, p, hb, hun⟩ := exists_turn x.handle.tx x.shutdown hdone
      have hs : Step S x (.conn c b) _ := .conn hb
      have hle := hx.left hs
      rw [hun.own, hn] at hle
      exact ⟨_, _, _, hs, ⟨rfl, hun⟩, hle, rfl⟩) h rfl
  refine ⟨tr, s', hrun, ?_, ?_, hrest, ?_⟩
  · refine hrun.invariant (I := fun _ x => Keeps s x) ⟨rfl, rfl⟩ ?_
    intro tr x a x' _ hk ha hs
    cases a with
    | conn =>
        have hk' := Keeps.step hs
        exact ⟨hk'.handle.trans hk.handle, hk'.shutdown.trans hk.shutdown⟩
    | _ => exact ha.elim
  · exact hrun.invariant (I := fun _ x => x.Calm) h fun _ hx ha hs => hstep hx ha hs
  · refine hrun.invariant (I := fun _ x => ∀ d, d ≠ c → x.conn d = s.conn d) (fun _ _ => rfl) ?_
    intro tr x a x' _ hx ha hs d hd
    refine (hs.other fun b hb => ?_).1.trans (hx d hd)
    subst hb
    exact hd ha.1

/-- An act of a connection that asks no more of its client than to read. -/
def Act.Unaided : Act F ν → Prop
  | .conn _ b => b.Unaided
  | _ => False

/-- **The connections come to rest**, one after another. -/
theorem exists_rest (S : FrameFormat F) (h : s.Calm) (l : List ν) :
    ∃ tr s', Run (Step S) (fun _ a => a.Unaided) s tr s' ∧ Keeps s s' ∧ s'.Calm ∧
      (∀ c ∈ l, (s'.conn c).Resting s'.handle.tx) ∧ ∀ c, c ∉ l → s'.conn c = s.conn c := by
  induction l with
  | nil => exact ⟨[], s, .nil, ⟨rfl, rfl⟩, h, fun _ hc => (by cases hc), fun _ _ => rfl⟩
  | cons c l ih =>
      obtain ⟨tr, m, hrun, hk, hm, hrest, hothers⟩ := ih
      obtain ⟨tr', s', hrun', hk', hs', hrest', hothers'⟩ := exists_rest_of S hm c
      have hmono : ∀ (x : Server F ν) (a : Act F ν), a.ReadBy c → a.Unaided := by
        intro x a ha
        cases a with
        | conn => exact ha.2
        | _ => exact ha.elim
      refine ⟨tr ++ tr', s', hrun.trans (hrun'.mono hmono),
        ⟨hk'.handle.trans hk.handle, hk'.shutdown.trans hk.shutdown⟩, hs', ?_, ?_⟩
      · intro d hd
        by_cases hdc : d = c
        · exact hdc ▸ hrest'
        · rw [hothers' d hdc, hk'.handle]
          exact hrest d (List.mem_of_ne_of_mem hdc hd)
      · intro d hd
        have hdc : d ≠ c := fun heq => hd (heq ▸ List.mem_cons_self)
        exact (hothers' d hdc).trans (hothers d fun hmem => hd (List.mem_cons_of_mem c hmem))

/-- **A connection at rest** has sent the welcome and every frame since its subscription, or has
ended. -/
theorem sent_of_rest {radio : Text} {powerMaxWatts : F} {tr₁ tr₂ : List (Act F ν)}
    (h : Run (Step S) Always (.start radio powerMaxWatts) (tr₁ ++ .conn c .subscribe :: tr₂) s)
    (hrest : (s.conn c).Resting s.handle.tx) :
    s.conn c = .returned ∨ textsOn c (tr₁ ++ .conn c .subscribe :: tr₂) =
      welcomeFrame :: frames S (.new radio powerMaxWatts) tr₂ := by
  obtain ⟨hinv, hhold⟩ := streamInv_of_run h
  cases hp : s.conn c with
  | accepted =>
      rw [hp] at hinv
      exact hinv.elim
  | returned => exact .inl rfl
  | selecting seen next =>
      rw [hp] at hinv hrest
      obtain ⟨k, rfl, hk, htexts⟩ := hinv
      have hle := hhold.of_recv_none hrest
      rw [List.length_append] at hle
      refine .inr (htexts.trans ?_)
      rw [List.take_of_length_le (Nat.le_of_add_le_add_left hle)]
  | subscribing | welcoming | sending | closing =>
      rw [hp] at hrest
      exact hrest.elim

end WavelogRelay.Ws
