import WavelogRelay.Ws.Server

/-!
# Ws — what a client gets

The messages sent on a connection are read off the acts of a run, and so are the frames that were
broadcast.

* `StreamInv.step`: from its subscription on, a connection has sent the welcome and the first
  frames since, and its receiver stands at the next one.
* `Run.alone`: a run without the acts of the other clients is a run, and ends in the same state
  of the connection.
* `gap_free`: so every client gets a gap-free stream, whatever the others do, until it is
  disconnected.
-/

namespace WavelogRelay.Ws
open Library Rig

variable {F ν : Type}

def Message.text? : Message → Option Text
  | .text t => some t
  | .close => none

/-- The message an act brings to the client. -/
def ConnAct.message? : ConnAct → Option Message
  | .sent m | .sendFailed m true => some m
  | _ => none

def Act.sentOn [DecidableEq ν] (c : ν) : Act F ν → Option Message
  | .conn d a => if d = c then a.message? else none
  | _ => none

/-- What the client of `c` gets. -/
def sentOn [DecidableEq ν] (c : ν) (tr : List (Act F ν)) : List Message := tr.filterMap (·.sentOn c)

def textsOn [DecidableEq ν] (c : ν) (tr : List (Act F ν)) : List Text :=
  (sentOn c tr).filterMap (·.text?)

def Act.frame? (S : FrameFormat F) (h : WsHandle F) : Act F ν → Option Text
  | .broadcast state now => h.frame S state now
  | _ => none

/-- The frames that are broadcast. -/
def frames (S : FrameFormat F) (h : WsHandle F) (tr : List (Act F ν)) : List Text :=
  tr.filterMap (·.frame? S h)

/-- Is it an act of another connection than `c`? -/
def Act.ofOther [DecidableEq ν] (c : ν) : Act F ν → Bool
  | .conn d _ => d != c
  | _ => false

/-- The server with the connection `c` alone. -/
def Server.only [DecidableEq ν] (c : ν) (s : Server F ν) : Server F ν :=
  { s with conn := Function.update (fun _ => .accepted) c (s.conn c) }

variable [DecidableEq ν] {S : FrameFormat F} {radio : Text} {powerMaxWatts : F} {c : ν}
  {s s' s₀ : Server F ν} {tr tr₁ tr₂ : List (Act F ν)} {a : Act F ν}

/-- What a connection has had after the acts `tr`. -/
structure Stream (S : FrameFormat F) (start : Server F ν) (c : ν) (tr : List (Act F ν))
    (s : Server F ν) : Prop where
  /-- Without a subscription no text. -/
  silent : .conn c .subscribe ∉ tr → textsOn c tr = []
  /-- The welcome, and then the frames since the subscription, from the first on. -/
  gapFree : ∀ tr₁ tr₂, tr = tr₁ ++ .conn c .subscribe :: tr₂ →
    textsOn c tr <+: welcomeFrame :: frames S start.handle tr₂
  /-- After a missed frame there is only a `Close`, and the end. -/
  lagged : ∀ tr₁ tr₂, tr = tr₁ ++ .conn c .lagged :: tr₂ →
    sentOn c tr₂ <+: [.close] ∧ (s.conn c = .closing ∨ s.conn c = .returned)
  /-- Without the other clients it would have had the same. -/
  alone : Run (Step S) Always start (tr.filter (!·.ofOther c)) (s.only c) ∧
    sentOn c (tr.filter (!·.ofOther c)) = sentOn c tr

/-! ### The frames -/

/-- The frames are made by what does not change. -/
structure History (S : FrameFormat F) (h : WsHandle F) (hist : List Text) (s : Server F ν) :
    Prop where
  radio : s.handle.radio = h.radio
  power : s.handle.powerMaxWatts = h.powerMaxWatts
  holds : s.handle.tx.Holds hist

omit [DecidableEq ν] in
theorem History.frame {h : WsHandle F} {hist : List Text} (hh : History S h hist s)
    (state : RigState F) (now : UInt64) : s.handle.frame S state now = h.frame S state now := by
  rw [WsHandle.frame, WsHandle.frame, hh.radio, hh.power]

omit [DecidableEq ν] in
theorem frames_append (h : WsHandle F) (tr tr' : List (Act F ν)) :
    frames S h (tr ++ tr') = frames S h tr ++ frames S h tr' := List.filterMap_append

omit [DecidableEq ν] in
theorem frames_snoc (h : WsHandle F) (tr : List (Act F ν)) (a : Act F ν) :
    frames S h (tr ++ [a]) = frames S h tr ++ (a.frame? S h).toList := by
  rw [frames_append]
  cases ha : a.frame? S h <;> simp [frames, ha]

theorem History.step {h : WsHandle F} {hist : List Text} (hh : History S h hist s)
    (hs : Step S s a s') : History S h (hist ++ (a.frame? S h).toList) s' := by
  cases hs with
  | broadcast state now =>
      have hf := hh.frame state now
      change History S h (hist ++ (h.frame S state now).toList)
        { s with handle := s.handle.broadcast S state now }
      unfold WsHandle.broadcast
      rw [hf]
      cases h.frame S state now with
      | none => simpa using hh
      | some json => exact ⟨hh.radio, hh.power, hh.holds.send json⟩
  | shutdownSent | shutdownDropped | conn =>
      rw [show (Act.frame? S h _).toList = [] from rfl, List.append_nil]
      exact ⟨hh.radio, hh.power, hh.holds⟩

theorem History.run {h : WsHandle F} {hist : List Text} (hh : History S h hist s₀)
    (hr : Run (Step S) Always s₀ tr s) : History S h (hist ++ frames S h tr) s := by
  refine hr.invariant (I := fun tr s => History S h (hist ++ frames S h tr) s) ?_ ?_
  · simpa [frames] using hh
  · rintro tr s a s' - ih - hs
    rw [frames_snoc, ← List.append_assoc]
    exact ih.step hs

/-! ### The texts -/

theorem sentOn_snoc (c : ν) (tr : List (Act F ν)) (a : Act F ν) :
    sentOn c (tr ++ [a]) = sentOn c tr ++ (a.sentOn c).toList := by
  rw [sentOn, List.filterMap_append]
  cases ha : a.sentOn c <;> simp [sentOn, ha]

theorem textsOn_append (c : ν) (tr tr' : List (Act F ν)) :
    textsOn c (tr ++ tr') = textsOn c tr ++ textsOn c tr' := by
  rw [textsOn, sentOn, List.filterMap_append, List.filterMap_append]
  rfl

theorem textsOn_snoc (c : ν) (tr : List (Act F ν)) (a : Act F ν) :
    textsOn c (tr ++ [a]) = textsOn c tr ++ ((a.sentOn c).bind (·.text?)).toList := by
  rw [textsOn_append]
  cases ha : a.sentOn c with
  | none => simp [textsOn, sentOn, ha]
  | some m => cases m <;> simp [textsOn, sentOn, ha, Message.text?]

/-- What an act that is not of `c` leaves alone. -/
theorem Step.other (hs : Step S s a s') (ha : ∀ b, a ≠ .conn c b) :
    s'.conn c = s.conn c ∧ a.sentOn c = none := by
  cases hs with
  | broadcast | shutdownSent | shutdownDropped => exact ⟨rfl, rfl⟩
  | @conn d b p hs =>
      have hdc : d ≠ c := fun e => ha b (e ▸ rfl)
      exact ⟨Function.update_of_ne hdc.symm _ _, if_neg hdc⟩

theorem Step.own {b : ConnAct} (hs : Step S s (.conn c b) s') :
    ConnStep s.handle.tx s.shutdown (s.conn c) b (s'.conn c) := by
  cases hs with
  | conn hs =>
      change ConnStep s.handle.tx s.shutdown (s.conn c) b (Function.update s.conn c _ c)
      rw [Function.update_self]
      exact hs

/-- With the texts `texts` since the subscription, at which `n` frames had been sent, and the
frames `fr` since then. -/
def StreamInv (n : Nat) (fr texts : List Text) : Phase → Prop
  | .welcoming _ next => texts = [] ∧ next = n
  | .selecting _ next => ∃ k, next = n + k ∧ k ≤ fr.length ∧ texts = welcomeFrame :: fr.take k
  | .sending _ next frame =>
      ∃ k, next = n + k + 1 ∧ fr[k]? = some frame ∧ texts = welcomeFrame :: fr.take k
  | .closing | .returned => texts <+: welcomeFrame :: fr
  | .accepted | .subscribing _ => False

namespace StreamInv

variable {n : Nat} {fr texts : List Text} {p p' : Phase}

theorem isPrefix (h : StreamInv n fr texts p) : texts <+: welcomeFrame :: fr := by
  cases p with
  | accepted | subscribing => cases h
  | welcoming =>
      rw [h.1]
      exact List.nil_prefix
  | selecting =>
      obtain ⟨k, -, -, rfl⟩ := h
      exact (List.prefix_cons_inj _).mpr (List.take_prefix _ _)
  | sending =>
      obtain ⟨k, -, -, rfl⟩ := h
      exact (List.prefix_cons_inj _).mpr (List.take_prefix _ _)
  | closing | returned => exact h

/-- A frame that is being sent is the next one. -/
theorem take_succ {k : Nat} {frame : Text} (h : fr[k]? = some frame) :
    welcomeFrame :: fr.take k ++ [frame] = welcomeFrame :: fr.take (k + 1) := by
  rw [List.take_add_one, h]
  rfl

theorem delivered (h : StreamInv n fr texts p) {m : Message} (hm : p.message = some m) :
    texts ++ m.text?.toList <+: welcomeFrame :: fr := by
  cases p with
  | welcoming =>
      cases hm
      rw [h.1]
      exact (List.prefix_cons_inj _).mpr List.nil_prefix
  | sending =>
      cases hm
      obtain ⟨k, -, hk, rfl⟩ := h
      change welcomeFrame :: fr.take k ++ [_] <+: _
      rw [take_succ hk]
      exact (List.prefix_cons_inj _).mpr (List.take_prefix _ _)
  | closing =>
      cases hm
      rw [show Message.close.text?.toList = [] from rfl, List.append_nil]
      exact h
  | accepted | subscribing | selecting | returned => cases hm

/-- More frames change nothing. -/
theorem more_frames (h : StreamInv n fr texts p) (more : List Text) :
    StreamInv n (fr ++ more) texts p := by
  cases p with
  | accepted | subscribing => cases h
  | welcoming => exact h
  | selecting =>
      obtain ⟨k, hn, hk, rfl⟩ := h
      refine ⟨k, hn, Nat.le_trans hk (List.length_append ▸ Nat.le_add_right _ _), ?_⟩
      rw [List.take_append_of_le_length hk]
  | sending =>
      obtain ⟨k, hn, hk, rfl⟩ := h
      have hlt : k < fr.length := (List.getElem?_eq_some_iff.mp hk).1
      refine ⟨k, hn, by rw [List.getElem?_append_left hlt]; exact hk, ?_⟩
      rw [List.take_append_of_le_length (Nat.le_of_lt hlt)]
  | closing | returned => exact List.IsPrefix.trans h ⟨more, rfl⟩

theorem quiet (h : StreamInv n fr texts p) : StreamInv n fr (texts ++ []) p := by
  rw [List.append_nil]
  exact h

/-- **A connection sends the welcome, then each frame since its subscription in turn.** -/
theorem step {tx : Broadcast Text} {shutdown : Watch Bool} {hist : List Text} {b : ConnAct}
    (h : StreamInv hist.length fr texts p) (htx : tx.Holds (hist ++ fr))
    (hs : ConnStep tx shutdown p b p') :
    StreamInv hist.length fr (texts ++ (b.message?.bind (·.text?)).toList) p' := by
  cases hs with
  | refused | admitted | subscribed => cases h
  | welcomed =>
      obtain ⟨rfl, rfl⟩ := h
      exact ⟨0, rfl, Nat.zero_le _, rfl⟩
  | @notified seen next ok seen' hc =>
      by_cases hobs : shutdownObserved ok shutdown
      · rw [if_pos hobs]
        exact quiet (isPrefix h)
      · rw [if_neg hobs]
        exact quiet h
  | @received seen next next' frame hr =>
      obtain ⟨k, rfl, hk, rfl⟩ := h
      rcases Broadcast.recv_spec htx hr with ⟨hlag, -⟩ | ⟨x, hx, hget, rfl⟩
      · cases hlag
      · cases hx
        rw [List.getElem?_append_right (Nat.le_add_right _ _), Nat.add_sub_cancel_left] at hget
        exact ⟨k, rfl, hget, List.append_nil _⟩
  | lagged => exact quiet (isPrefix h)
  | @frameSent seen next frame =>
      obtain ⟨k, rfl, hk, rfl⟩ := h
      exact ⟨k + 1, rfl, (List.getElem?_eq_some_iff.mp hk).1, take_succ hk⟩
  | closeSent => exact delivered h rfl
  | sendFailed hm got =>
      cases got with
      | true => exact delivered h hm
      | false => exact quiet (isPrefix h)
  | inbound => exact quiet h
  | hungUp | dropped => exact quiet (isPrefix h)

end StreamInv

/-! ### Runs of one connection -/

theorem textsOn_own (c : ν) (tr : List (Act F ν)) (b : ConnAct) :
    textsOn c (tr ++ [.conn c b]) = textsOn c tr ++ (b.message?.bind (·.text?)).toList := by
  rw [textsOn_snoc, show (Act.conn c b : Act F ν).sentOn c = b.message? from if_pos rfl]

/-- **Since its subscription**, which `hist` was sent before. -/
theorem StreamInv.run {h : WsHandle F} {hist : List Text} (hh : History S h hist s₀)
    (h₀ : StreamInv hist.length [] [] (s₀.conn c)) (hr : Run (Step S) Always s₀ tr s) :
    StreamInv hist.length (frames S h tr) (textsOn c tr) (s.conn c) := by
  refine hr.invariant
    (I := fun tr s => StreamInv hist.length (frames S h tr) (textsOn c tr) (s.conn c))
    (show StreamInv hist.length (frames S h []) (textsOn c []) (s₀.conn c) from h₀) ?_
  rintro tr s a s' hrun ih - hs
  by_cases ha : ∃ b, a = .conn c b
  · obtain ⟨b, rfl⟩ := ha
    rw [textsOn_own, frames_snoc, show (Act.conn c b).frame? S h = none from rfl,
      Option.toList_none, List.append_nil]
    exact ih.step (hh.run hrun).holds hs.own
  · obtain ⟨hc, hsent⟩ := hs.other fun b hb => ha ⟨b, hb⟩
    rw [hc, textsOn_snoc, hsent, Option.bind_none, Option.toList_none, List.append_nil, frames_snoc]
    exact ih.more_frames _

/-- Without a subscription a connection has sent no text. -/
def Quiet (c : ν) (tr : List (Act F ν)) : Phase → Prop
  | .accepted | .subscribing _ => textsOn c tr = []
  | .closing | .returned => .conn c .subscribe ∈ tr ∨ textsOn c tr = []
  | _ => .conn c .subscribe ∈ tr

namespace Quiet

variable {p p' : Phase}

theorem next (h : Quiet c tr p) (ha : (a.sentOn c).bind (·.text?) = none) :
    Quiet c (tr ++ [a]) p := by
  have htexts : textsOn c (tr ++ [a]) = textsOn c tr := by
    rw [textsOn_snoc, ha, Option.toList_none, List.append_nil]
  cases p with
  | accepted | subscribing => exact htexts.trans h
  | closing | returned => exact h.imp (List.mem_append_left _) htexts.trans
  | welcoming | selecting | sending => exact List.mem_append_left _ h

theorem ended (h : Quiet c tr p) : .conn c .subscribe ∈ tr ∨ textsOn c tr = [] := by
  cases p with
  | accepted | subscribing => exact .inr h
  | closing | returned => exact h
  | welcoming | selecting | sending => exact .inl h

theorem step {tx : Broadcast Text} {shutdown : Watch Bool} {b : ConnAct} (h : Quiet c tr p)
    (hs : ConnStep tx shutdown p b p') : Quiet c (tr ++ [.conn c b]) p' := by
  have hquiet : b.message? = none → ((Act.conn c b : Act F ν).sentOn c).bind (·.text?) = none :=
    fun hb => by rw [show (Act.conn c b : Act F ν).sentOn c = b.message? from if_pos rfl, hb]; rfl
  cases hs with
  | refused => exact next (p := .closing) (.inr h) (hquiet rfl)
  | admitted => exact next (p := .subscribing _) h (hquiet rfl)
  | subscribed => exact List.mem_append_right _ List.mem_cons_self
  | welcomed => exact List.mem_append_left _ h
  | @notified seen next ok seen' hc =>
      by_cases hobs : shutdownObserved ok shutdown
      · rw [if_pos hobs]
        exact .inl (List.mem_append_left _ h)
      · rw [if_neg hobs]
        exact List.mem_append_left _ h
  | received | frameSent | inbound => exact List.mem_append_left _ h
  | lagged | hungUp => exact .inl (List.mem_append_left _ h)
  | closeSent =>
      refine next (p := .returned) h ?_
      rw [show (Act.conn c (.sent .close) : Act F ν).sentOn c = some .close from if_pos rfl]
      rfl
  | sendFailed hm got =>
      cases p with
      | accepted | subscribing | selecting | returned => cases hm
      | welcoming | sending => exact .inl (List.mem_append_left _ h)
      | closing =>
          cases hm
          refine next (p := .returned) h ?_
          cases got with
          | false => exact hquiet rfl
          | true =>
              rw [show (Act.conn c (.sendFailed .close true) : Act F ν).sentOn c = some .close
                from if_pos rfl]
              rfl
  | dropped => exact next (p := .returned) h.ended (hquiet rfl)

end Quiet

theorem Quiet.run (h₀ : s₀.conn c = .accepted) (hr : Run (Step S) Always s₀ tr s) :
    Quiet c tr (s.conn c) := by
  refine hr.invariant (I := fun tr s => Quiet c tr (s.conn c)) ?_ ?_
  · rw [h₀]
    exact rfl
  · rintro tr s a s' - ih - hs
    by_cases ha : ∃ b, a = .conn c b
    · obtain ⟨b, rfl⟩ := ha
      exact ih.step hs.own
    · obtain ⟨hc, hsent⟩ := hs.other fun b hb => ha ⟨b, hb⟩
      rw [hc]
      exact ih.next (by rw [hsent]; rfl)

/-- A connection that is closing sends a `Close` at most, and ends. -/
def Ending (sent : List Message) (p : Phase) : Prop :=
  p = .closing ∧ sent = [] ∨ p = .returned ∧ sent <+: [.close]

theorem Ending.step {tx : Broadcast Text} {shutdown : Watch Bool} {sent : List Message}
    {p p' : Phase} {b : ConnAct} (h : Ending sent p) (hs : ConnStep tx shutdown p b p') :
    Ending (sent ++ b.message?.toList) p' := by
  rcases h with ⟨rfl, rfl⟩ | ⟨rfl, h⟩
  · cases hs with
    | closeSent => exact .inr ⟨rfl, List.prefix_rfl⟩
    | sendFailed hm got =>
        cases hm
        cases got with
        | false => exact .inr ⟨rfl, List.nil_prefix⟩
        | true => exact .inr ⟨rfl, List.prefix_rfl⟩
    | dropped => exact .inr ⟨rfl, List.nil_prefix⟩
  · cases hs with
    | sendFailed hm => cases hm
    | dropped => exact .inr ⟨rfl, by simpa [ConnAct.message?] using h⟩

theorem Ending.run (h₀ : s₀.conn c = .closing) (hr : Run (Step S) Always s₀ tr s) :
    Ending (sentOn c tr) (s.conn c) := by
  refine hr.invariant (I := fun tr s => Ending (sentOn c tr) (s.conn c)) (.inl ⟨h₀, rfl⟩) ?_
  rintro tr s a s' - ih - hs
  rw [sentOn_snoc]
  by_cases ha : ∃ b, a = .conn c b
  · obtain ⟨b, rfl⟩ := ha
    rw [show (Act.conn c b : Act F ν).sentOn c = b.message? from if_pos rfl]
    exact ih.step hs.own
  · obtain ⟨hc, hsent⟩ := hs.other fun b hb => ha ⟨b, hb⟩
    rw [hc, hsent, Option.toList_none, List.append_nil]
    exact ih

/-! ### The other clients -/

section Only

variable {d : ν} {p : Phase}

@[simp] theorem Server.only_conn : (s.only c).conn c = s.conn c := by
  simp only [Server.only, Function.update_self]

theorem Server.only_other (hdc : d ≠ c) :
    Server.only c { s with conn := Function.update s.conn d p } = s.only c := by
  simp only [Server.only, Function.update_of_ne hdc.symm]

theorem Server.only_own : Server.only c { s with conn := Function.update s.conn c p } =
    { s.only c with conn := Function.update (s.only c).conn c p } := by
  simp only [Server.only, Function.update_self, Function.update_idem]

end Only

/-- **Without the acts of the other clients** a run is a run, to the same state of `c`. -/
theorem alone_run (hr : Run (Step S) Always s₀ tr s) :
    Run (Step S) Always (s₀.only c) (tr.filter (!·.ofOther c)) (s.only c) := by
  rw [← List.filterMap_eq_filter]
  refine hr.simulate (Server.only c) _ ?_ ?_
  · intro s a s' hs ha
    cases hs with
    | broadcast | shutdownSent | shutdownDropped => simp [Act.ofOther] at ha
    | @conn d b p hs =>
        have hdc : d ≠ c := by simpa [Act.ofOther, Option.guard] using ha
        exact Server.only_other hdc
  · intro s a s' b _ hs ha
    obtain ⟨rfl, ha⟩ := Option.guard_eq_some_iff.mp ha
    refine ⟨trivial, ?_⟩
    cases hs with
    | broadcast state now => exact .broadcast state now
    | shutdownSent value => exact .shutdownSent value
    | shutdownDropped => exact .shutdownDropped
    | @conn d b p hs =>
        obtain rfl : d = c := by simpa [Act.ofOther] using ha
        rw [Server.only_own]
        refine .conn ?_
        rw [Server.only_conn]
        exact hs

theorem sentOn_alone (c : ν) (tr : List (Act F ν)) :
    sentOn c (tr.filter (!·.ofOther c)) = sentOn c tr := by
  rw [sentOn, List.filterMap_filter]
  refine List.filterMap_congr fun a _ => ?_
  cases a with
  | broadcast | shutdownSent | shutdownDropped => rfl
  | conn d b =>
      by_cases hdc : d = c
      · simp [Act.ofOther, hdc]
      · simp [Act.ofOther, Act.sentOn, hdc]

/-! ### Every client -/

theorem Server.only_start : (Server.start radio powerMaxWatts : Server F ν).only c =
    .start radio powerMaxWatts :=
  congrArg (Server.mk _ _) (Function.update_eq_self c fun _ => Phase.accepted)

/-- **From its subscription on** a connection stands at the next of the frames since. -/
theorem streamInv_of_run (h : Run (Step S) Always (.start radio powerMaxWatts)
    (tr₁ ++ .conn c .subscribe :: tr₂) s) :
    StreamInv (frames S (.new radio powerMaxWatts) tr₁).length
      (frames S (.new radio powerMaxWatts) tr₂) (textsOn c (tr₁ ++ .conn c .subscribe :: tr₂))
        (s.conn c) ∧
      s.handle.tx.Holds
        (frames S (.new radio powerMaxWatts) tr₁ ++ frames S (.new radio powerMaxWatts) tr₂) := by
  obtain ⟨m, m', h₁, -, hs, h₂⟩ := h.step_at
  have hstart : History S (.new radio powerMaxWatts) []
      (.start radio powerMaxWatts : Server F ν) := ⟨rfl, rfl, Broadcast.holds_new _⟩
  have hm := hstart.run h₁
  have hquiet := Quiet.run (c := c) rfl h₁
  have hown := hs.own
  -- the receiver starts at the number of the frames so far
  generalize m.conn c = p at hown hquiet
  generalize hp' : m'.conn c = p' at hown
  cases hown with
  | subscribed =>
      have hinv : StreamInv ([] ++ frames S (.new radio powerMaxWatts) tr₁).length [] []
          (m'.conn c) := by
        rw [hp']
        exact ⟨rfl, hm.holds.sent⟩
      have hm' := hm.step hs
      rw [show (Act.conn c .subscribe).frame? S (.new radio powerMaxWatts) = none from rfl,
        Option.toList_none, List.append_nil] at hm'
      have hbefore : textsOn c (tr₁ ++ [.conn c .subscribe]) = [] := by
        rw [textsOn_own, show textsOn c tr₁ = [] from hquiet]
        rfl
      rw [List.append_cons, textsOn_append, hbefore]
      exact ⟨hinv.run hm' h₂, (hm'.run h₂).holds⟩

theorem gapFree_of_run (h : Run (Step S) Always (.start radio powerMaxWatts)
    (tr₁ ++ .conn c .subscribe :: tr₂) s) :
    textsOn c (tr₁ ++ .conn c .subscribe :: tr₂) <+:
      welcomeFrame :: frames S (.new radio powerMaxWatts) tr₂ := (streamInv_of_run h).1.isPrefix

/-- **Every client gets a gap-free stream until it is disconnected**, in every run. -/
theorem gap_free (S : FrameFormat F) (radio : Text) (powerMaxWatts : F) (c : ν)
    (h : Run (Step S) Always (.start radio powerMaxWatts) tr s) :
    Stream S (.start radio powerMaxWatts) c tr s := by
  refine ⟨(Quiet.run rfl h).ended.resolve_left, ?_, ?_, ?_, sentOn_alone c tr⟩
  · rintro tr₁ tr₂ rfl
    exact gapFree_of_run h
  · rintro tr₁ tr₂ rfl
    obtain ⟨m, m', -, -, hs, h₂⟩ := h.step_at
    have hclosing : m'.conn c = .closing := by
      have hown := hs.own
      generalize m.conn c = p at hown
      generalize m'.conn c = p' at hown ⊢
      cases hown with
      | lagged => rfl
    rcases Ending.run hclosing h₂ with ⟨hp, hsent⟩ | ⟨hp, hsent⟩
    · rw [hsent]
      exact ⟨List.nil_prefix, .inl hp⟩
    · exact ⟨hsent, .inr hp⟩
  · have halone := alone_run (c := c) h
    rw [Server.only_start] at halone
    exact halone

/-- Frames with whole powers, and texts that need no escapes. -/
def wholeFormat : FrameFormat Nat where
  mul p w := p * w
  toString r :=
    some ("\x7b\"type\":\"".toList ++ r.kind ++ "\",\"radio\":\"".toList ++ r.radio ++
      "\",\"frequency\":".toList ++ decimal r.frequency.toNat ++ ",\"mode\":\"".toList ++ r.mode ++
      ['"'] ++
      (match r.power with
        | none => []
        | some p => ",\"power\":".toList ++ decimal p ++ ".0".toList) ++
      ",\"timestamp\":".toList ++ decimal r.timestamp.toNat ++ "\x7d".toList)

def usbState : RigState Nat := { freq := 14200000, mode := "USB".toList, power := none }

/-- The text of the frame for `usbState`. -/
def usbFrame : Text :=
  ("\x7b\"type\":\"radio_status\",\"radio\":\"IC-7300\",\"frequency\":14200000," ++
    "\"mode\":\"USB\",\"timestamp\":0\x7d").toList

/-- A server with a client at `p`, and a slow one at `q`. -/
def serverOf (h : WsHandle Nat) (p q : Phase) : Server Nat Bool :=
  ⟨h, .new false, fun slow => if slow then q else p⟩

theorem start_eq (radio : Text) (powerMaxWatts : Nat) :
    .start radio powerMaxWatts = serverOf (.new radio powerMaxWatts) .accepted .accepted := by
  have hconn :
      (fun _ => .accepted) = (serverOf (.new radio powerMaxWatts) .accepted .accepted).conn := by
    funext slow
    cases slow <;> rfl
  rw [Server.start, hconn]
  rfl

/-- The one client steps, and the other is where it was. -/
theorem serverOf_step {h : WsHandle Nat} {p p' q q' : Phase} {slow : Bool} {b : ConnAct}
    (hs : ConnStep h.tx (.new false) ((serverOf h p q).conn slow) b
      ((serverOf h p' q').conn slow))
    (hother : (serverOf h p' q').conn (!slow) = (serverOf h p q).conn (!slow)) :
    Step wholeFormat (serverOf h p q) (.conn slow b) (serverOf h p' q') := by
  have hconn : (serverOf h p' q').conn =
      Function.update (serverOf h p q).conn slow ((serverOf h p' q').conn slow) := by
    funext x
    by_cases hx : x = slow
    · rw [hx, Function.update_self]
    · rw [Function.update_of_ne hx, Bool.eq_not_of_ne hx, hother]
  have hserver : serverOf h p' q' = { serverOf h p q with
      conn := Function.update (serverOf h p q).conn slow ((serverOf h p' q').conn slow) } := by
    rw [← hconn]
    rfl
  exact hserver ▸ .conn hs

theorem ready_step {h : WsHandle Nat} {p p' q : Phase} {b : ConnAct}
    (hs : ConnStep h.tx (.new false) p b p') :
    Step wholeFormat (serverOf h p q) (.conn false b) (serverOf h p' q) := serverOf_step hs rfl

theorem slow_step {h : WsHandle Nat} {p q q' : Phase} {b : ConnAct}
    (hs : ConnStep h.tx (.new false) q b q') :
    Step wholeFormat (serverOf h p q) (.conn true b) (serverOf h p q') := serverOf_step hs rfl

/-- Broadcasts, each of which the first client gets. -/
def frameActs : Nat → List (Act Nat Bool)
  | 0 => []
  | n + 1 => frameActs n ++
      [.broadcast usbState 0, .conn false .received, .conn false (.sent (.text usbFrame))]

theorem frames_run (n : Nat) : ∃ h : WsHandle Nat, h.tx.capacity = channelCapacity ∧
    History wholeFormat (.new "IC-7300".toList 100) (.replicate n usbFrame)
      (serverOf h (.selecting 0 n) (.welcoming 0 0)) ∧
    Run (Step wholeFormat) Always
      (serverOf (.new "IC-7300".toList 100) (.selecting 0 0) (.welcoming 0 0)) (frameActs n)
      (serverOf h (.selecting 0 n) (.welcoming 0 0)) := by
  induction n with
  | zero => exact ⟨_, rfl, ⟨rfl, rfl, Broadcast.holds_new _⟩, .nil⟩
  | succ n ih =>
      obtain ⟨h, hcap, hh, hrun⟩ := ih
      have hframe : h.frame wholeFormat usbState 0 = some usbFrame :=
        (hh.frame usbState 0).trans (by decide +kernel)
      let h' : WsHandle Nat := { h with tx := h.tx.send usbFrame }
      have hb : h.broadcast wholeFormat usbState 0 = h' := by rw [WsHandle.broadcast, hframe]
      have hholds : h'.tx.Holds (.replicate (n + 1) usbFrame) := by
        rw [List.replicate_succ']
        exact hh.holds.send usbFrame
      have hrecv : h'.tx.recv n = some (.value usbFrame, n + 1) := by
        have hcap' : h'.tx.capacity = channelCapacity := hcap
        rw [hholds.recv, hcap', if_neg (by simp [channelCapacity]), List.getElem?_replicate,
          if_pos (Nat.lt_succ_self n)]
        rfl
      refine ⟨h', hcap, ⟨hh.radio, hh.power, hholds⟩, ?_⟩
      refine hrun.trans ?_
      have hsent : Step wholeFormat (serverOf h (.selecting 0 n) (.welcoming 0 0))
          (.broadcast usbState 0) (serverOf h' (.selecting 0 n) (.welcoming 0 0)) :=
        hb ▸ .broadcast usbState 0
      refine .cons trivial hsent ?_
      refine .cons trivial (ready_step (.received hrecv)) ?_
      exact .cons trivial (ready_step .frameSent) .nil

/-- Two clients subscribe, and the second one takes long to get its welcome. -/
def lagActs : List (Act Nat Bool) :=
  [.conn false .check, .conn true .check, .conn false .subscribe, .conn true .subscribe,
    .conn false (.sent (.text welcomeFrame))] ++ frameActs (channelCapacity + 1) ++
    [.conn true (.sent (.text welcomeFrame)), .conn true .lagged, .conn true (.sent .close)]

theorem lag_run : ∃ h : WsHandle Nat, Run (Step wholeFormat) Always
    (.start "IC-7300".toList 100) lagActs (serverOf h (.selecting 0 17) .returned) := by
  obtain ⟨h, hcap, hh, hrun⟩ := frames_run (channelCapacity + 1)
  have hlag : h.tx.recv 0 = some (.lagged, 1) := by
    have hholds : h.tx.Holds (.replicate (channelCapacity + 1) usbFrame) := hh.holds
    rw [hholds.recv, hcap, List.length_replicate]
    rfl
  rw [start_eq]
  refine ⟨h, Run.trans (Run.trans ?_ hrun) ?_⟩
  · refine .cons trivial (ready_step (.admitted rfl)) ?_
    refine .cons trivial (slow_step (.admitted rfl)) ?_
    refine .cons trivial (ready_step .subscribed) ?_
    refine .cons trivial (slow_step .subscribed) ?_
    exact .cons trivial (ready_step .welcomed) .nil
  · refine .cons trivial (slow_step .welcomed) ?_
    refine .cons trivial (slow_step (.lagged hlag)) ?_
    exact .cons trivial (slow_step .closeSent) .nil

/-- A client that gets 17 frames beside one that lags behind. -/
theorem frames_beside_lag : ∃ s, s.conn false = .selecting 0 17 ∧ s.conn true = .returned ∧
    Stream wholeFormat (.start "IC-7300".toList 100) false lagActs s ∧
      Stream wholeFormat (.start "IC-7300".toList 100) true lagActs s := by
  obtain ⟨h, hrun⟩ := lag_run
  exact ⟨_, rfl, rfl, gap_free wholeFormat _ _ false hrun, gap_free wholeFormat _ _ true hrun⟩

end WavelogRelay.Ws
