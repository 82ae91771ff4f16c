import WavelogRelay.Rig.Sync

/-!
# Rig — the transceiver behind rigctld

A `Device` is what a transceiver is set to.  A line that rigctld obeys reads the device or sets it;
it may also refuse a line, and then nothing changes (`Obeys`).  A line that is late, or whose
answer is, may have been obeyed all the same.

`Does R d cmd res d'` is a command carried out at once: on the device `d` it ends with `res`, and
leaves `d'`.

* `wp_obeyed`: the rule of a line and its answer, when rigctld owes no other.
* `handleCommand_does`: each command does what it says, however many lines it takes.
-/

namespace WavelogRelay.Rig
open Library Dialogue

variable {F : Type}

/-! ### The device -/

/-- A line that is answered as it is, and is no RPRT line. -/
structure Plain (x : Text) : Prop where
  oneLine : ∀ c ∈ x, c ≠ '\n' ∧ c ≠ '\r'
  notRprt : ¬ "RPRT ".toList <+: x

/-- What a transceiver is set to: its frequency, the hamlib name of its mode, and its RFPOWER, if
its backend has one. -/
structure Device (R : F32 F) where
  freq : UInt64
  mode : Text
  power : Option Text
  mode_ne_nil : mode ≠ []
  mode_word : ∀ c ∈ mode, isWhitespace c = false
  power_plain : ∀ x ∈ power, Plain x
  power_finite : ∀ x ∈ power, ∃ v, R.parse x = some v ∧ R.isFinite v = true

variable {R : F32 F}

/-- What the relay makes of the power. -/
def Device.rfpower (d : Device R) : Option F := (d.power.bind R.parse).map R.clamp

def Device.setFreq (d : Device R) (hz : UInt64) : Device R := { d with freq := hz }

theorem asStr_word (mode : HamlibMode) :
    mode.asStr ≠ [] ∧ ∀ c ∈ mode.asStr, isWhitespace c = false := by
  have hne : mode.asStr ≠ [] := by
    cases mode <;> exact List.cons_ne_nil _ _
  have hall : mode.asStr.all (fun c => !isWhitespace c) = true := by
    cases mode <;> rfl
  exact ⟨hne, fun c hc => by simpa using List.all_eq_true.mp hall c hc⟩

def Device.setMode (d : Device R) (mode : HamlibMode) : Device R :=
  { d with
    mode := mode.asStr
    mode_ne_nil := (asStr_word mode).1
    mode_word := (asStr_word mode).2 }

/-! ### rigctld -/

/-- An RPRT line with an error code. -/
def Refuses (r : Text) : Prop :=
  '\n' ∉ r ∧ ∃ code, code ≠ 0 ∧ parseRprt (trimLine (r ++ ['\n'])) = some code

/-- What rigctld answers a line with, and what it makes of the device. -/
inductive Obeys : Device R → Text → List Text → Device R → Prop where
  | freq {d : Device R} {line : Text} (h : line = "f".toList) :
      Obeys d line [decimal d.freq.toNat] d
  | mode {d : Device R} {line passband : Text} (h : line = "m".toList) :
      Obeys d line [d.mode, passband] d
  | power {d : Device R} {line x : Text} (h : line = "\\get_level RFPOWER".toList)
      (hx : d.power = some x) : Obeys d line [x] d
  | setFreq {d : Device R} {line : Text} {hz : UInt64} (h : line = setFreqLine hz) :
      Obeys d line ["RPRT 0".toList] (d.setFreq hz)
  | setMode {d : Device R} {line : Text} {mode : HamlibMode} (h : line = setModeLine mode) :
      Obeys d line ["RPRT 0".toList] (d.setMode mode)
  | refused {d : Device R} {line r : Text} (h : Refuses r) : Obeys d line [r] d

/-- rigctld on one connection: its device, and the lines it owes. -/
structure Rigctld (R : F32 F) where
  device : Device R
  owed : List Text

inductive Rigctld.Answers : Rigctld R → WireEvent → Rigctld R → Prop where
  | sent {x : Rigctld R} {line : Text} {rs : List Text} {d : Device R}
      (h : Obeys x.device line rs d) : Answers x ⟨.send line, .ok ()⟩ ⟨d, x.owed ++ rs⟩
  | sendFailed {x : Rigctld R} {line : Text} {e : IoError} :
      Answers x ⟨.send line, .error e⟩ x
  -- the line has reached rigctld all the same
  | sendLost {x : Rigctld R} {line : Text} {rs : List Text} {d : Device R} {e : IoError}
      (h : Obeys x.device line rs d) : Answers x ⟨.send line, .error e⟩ ⟨d, x.owed ++ rs⟩
  | read {x : Rigctld R} {r : Text} {rest : List Text} (h : x.owed = r :: rest) :
      Answers x ⟨.readLine, .ok (r ++ ['\n'])⟩ ⟨x.device, rest⟩
  | readFailed {x : Rigctld R} {a : Except IoError Text} (h : Failed ⟨.readLine, a⟩) :
      Answers x ⟨.readLine, a⟩ x

/-! ### Commands carried out at once -/

/-- An error that rigctld has told. -/
def Told (e : RigError) : Prop := ∃ code, code ≠ 0 ∧ e = .hamlib code

/-- A command that is cut short has set all it sets, or less. -/
inductive Partly (d : Device R) : RigCommand → Device R → Prop where
  | nothing {cmd : RigCommand} : Partly d cmd d
  | setFreq {hz : UInt64} : Partly d (.setFreq hz) (d.setFreq hz)
  | setMode {mode : HamlibMode} : Partly d (.setMode mode) (d.setMode mode)
  | half {hz : UInt64} {mode : HamlibMode} : Partly d (.setFreqMode hz mode) (d.setFreq hz)
  | both {hz : UInt64} {mode : HamlibMode} :
      Partly d (.setFreqMode hz mode) ((d.setFreq hz).setMode mode)

/-- A command, its result, and the device before and after it. -/
inductive Does (R : F32 F) (d : Device R) :
    RigCommand → Except IoError (Except RigError (Reply F)) → Device R → Prop where
  | getFreq : Does R d .getFreq (.ok (.ok (.freq d.freq))) d
  | getMode : Does R d .getMode (.ok (.ok (.mode d.mode))) d
  | getPower {v : F} (h : d.rfpower = some v) : Does R d .getPower (.ok (.ok (.power v))) d
  /-- A power that is refused is left out. -/
  | poll {power : Option F} (h : power = none ∨ power = d.rfpower) :
      Does R d .poll (.ok (.ok (.state ⟨d.freq, d.mode, power⟩))) d
  | setFreq {hz : UInt64} : Does R d (.setFreq hz) (.ok (.ok .done)) (d.setFreq hz)
  | setMode {mode : HamlibMode} : Does R d (.setMode mode) (.ok (.ok .done)) (d.setMode mode)
  | setFreqMode {hz : UInt64} {mode : HamlibMode} :
      Does R d (.setFreqMode hz mode) (.ok (.ok .done)) ((d.setFreq hz).setMode mode)
  | refused {cmd : RigCommand} {e : RigError} (h : Told e) : Does R d cmd (.ok (.error e)) d
  /-- The frequency was set, and the mode refused. -/
  | halfRefused {hz : UInt64} {mode : HamlibMode} {e : RigError} (h : Told e) :
      Does R d (.setFreqMode hz mode) (.ok (.error e)) (d.setFreq hz)
  | lost {cmd : RigCommand} {e : IoError} {d' : Device R} (h : Partly d cmd d') :
      Does R d cmd (.error e) d'

/-! ### Lines -/

variable {d d' : Device R} {rs : List Text}

theorem setFreqLine_injective : Function.Injective setFreqLine := fun _ _ h =>
  UInt64.toNat_inj.mp (decimal_injective (List.append_cancel_left h))

theorem setModeLine_injective : Function.Injective setModeLine := by
  intro mode mode' h
  cases mode <;> cases mode' <;> first | rfl | exact absurd h (by decide)

/-- What a line that only reads is answered with. -/
def ReadBy (d : Device R) (rs : List Text) (d' : Device R) (told : List Text → Prop) : Prop :=
  d' = d ∧ (told rs ∨ ∃ r, rs = [r] ∧ Refuses r)

theorem Obeys.freq_inv (h : Obeys d "f".toList rs d') :
    ReadBy d rs d' fun rs => rs = [decimal d.freq.toNat] := by
  cases h with
  | freq => exact ⟨rfl, .inl rfl⟩
  | refused h => exact ⟨rfl, .inr ⟨_, rfl, h⟩⟩
  | mode h | power h | setFreq h | setMode h => cases (List.cons.inj h).1

theorem Obeys.mode_inv (h : Obeys d "m".toList rs d') :
    ReadBy d rs d' fun rs => ∃ passband, rs = [d.mode, passband] := by
  cases h with
  | mode => exact ⟨rfl, .inl ⟨_, rfl⟩⟩
  | refused h => exact ⟨rfl, .inr ⟨_, rfl, h⟩⟩
  | freq h | power h | setFreq h | setMode h => cases (List.cons.inj h).1

theorem Obeys.power_inv (h : Obeys d "\\get_level RFPOWER".toList rs d') :
    ReadBy d rs d' fun rs => ∃ x, rs = [x] ∧ d.power = some x := by
  cases h with
  | power _ hx => exact ⟨rfl, .inl ⟨_, rfl, hx⟩⟩
  | refused h => exact ⟨rfl, .inr ⟨_, rfl, h⟩⟩
  | freq h | mode h | setFreq h | setMode h => cases (List.cons.inj h).1

/-- What a line that sets the device to `set` is answered with. -/
def SetBy (d : Device R) (rs : List Text) (d' set : Device R) : Prop :=
  rs = ["RPRT 0".toList] ∧ d' = set ∨ d' = d ∧ ∃ r, rs = [r] ∧ Refuses r

theorem Obeys.setFreq_inv {hz : UInt64} (h : Obeys d (setFreqLine hz) rs d') :
    SetBy d rs d' (d.setFreq hz) := by
  cases h with
  | setFreq h =>
      cases setFreqLine_injective h
      exact .inl ⟨rfl, rfl⟩
  | refused h => exact .inr ⟨rfl, _, rfl, h⟩
  | freq h | mode h | power h | setMode h => cases (List.cons.inj h).1

theorem Obeys.setMode_inv {mode : HamlibMode} (h : Obeys d (setModeLine mode) rs d') :
    SetBy d rs d' (d.setMode mode) := by
  cases h with
  | setMode h =>
      cases setModeLine_injective h
      exact .inl ⟨rfl, rfl⟩
  | refused h => exact .inr ⟨rfl, _, rfl, h⟩
  | freq h | mode h | power h | setFreq h => cases (List.cons.inj h).1

theorem trimLine_plain {x : Text} (h : Plain x) : trimLine (x ++ ['\n']) = x := by
  refine trimEndMatches_of_kept (fun c hc => ?_) fun c hc => ?_
  · have hne := h.oneLine c hc
    simp [hne.1, hne.2]
  · rw [List.mem_singleton.mp hc]
    rfl

theorem Plain.parseRprt {x : Text} (h : Plain x) : parseRprt x = none :=
  Option.not_isSome_iff_eq_none.mp fun hsome => h.notRprt (rprt_of_parseRprt hsome)

/-- What has neither a line break nor a space is plain. -/
theorem plain_of_word {x : Text} (h : ∀ c ∈ x, isWhitespace c = false) : Plain x where
  oneLine c hc := by
    have hword := h c hc
    constructor <;> rintro rfl <;> cases hword
  notRprt hpre := by
    have hspace := h ' ' (hpre.subset (by decide))
    cases hspace

theorem plain_decimal (n : Nat) : Plain (decimal n) where
  oneLine c hc := by
    constructor <;> rintro rfl <;> exact not_mem_decimal (by decide) n hc
  notRprt hpre := not_mem_decimal (c := ' ') (by decide) n (hpre.subset (by decide))

theorem parseU64_decimal (hz : UInt64) : parseU64 (decimal hz.toNat) = some hz := by
  rw [parseU64, parseUnsigned_decimal (Nat.le_of_lt_succ hz.toNat_lt)]
  exact congrArg some hz.ofNat_toNat

/-! ### What is read -/

/-- What a command that only reads ends with: a value, as `val` says, or an error that was told. -/
def Reads {α : Type} (d : Device R) (val : α → Prop) :
    Except IoError (Except RigError α) → Rigctld R → Prop
  | .ok (.ok v), x => x = ⟨d, []⟩ ∧ val v
  | .ok (.error e), x => x = ⟨d, []⟩ ∧ Told e
  | .error _, x => x.device = d

section Wp

variable {α : Type} {post : Except IoError α → Rigctld R → Prop}

/-- rigctld takes every question. -/
def Rigctld.Takes (_ : Rigctld R) (_ : Ask) : Prop := True

theorem Rigctld.Answers.device_eq {x y : Rigctld R} {a : Except IoError Text}
    (h : x.Answers ⟨.readLine, a⟩ y) : y.device = x.device := by
  cases h <;> rfl

/-- A line that is read is the first that is owed. -/
theorem Rigctld.Answers.of_read {x y : Rigctld R} {a : Except IoError Text} {line : Text}
    (h : x.Answers ⟨.readLine, a⟩ y) (ha : lineOf a = .ok line) :
    ∃ r rest, x.owed = r :: rest ∧ line = trimLine (r ++ ['\n']) ∧ y = ⟨x.device, rest⟩ := by
  cases h with
  | read howed =>
      obtain ⟨raw, hraw, -, rfl⟩ := lineOf_ok ha
      cases hraw
      exact ⟨_, _, howed, rfl, rfl⟩
  | readFailed hfail => cases hfail <;> cases ha

/-- **The rule of a line and its answer**, when no answer is owed. -/
theorem wp_obeyed {line : Text} {k : Text → Wire α}
    (hlost : ∀ io d' owed, d' = d ∨ (∃ rs, Obeys d line rs d') → post (.error io) ⟨d', owed⟩)
    (hk : ∀ r rest d', Obeys d line (r :: rest) d' →
      wp Rigctld.Answers Rigctld.Takes post (k (trimLine (r ++ ['\n']))) ⟨d', rest⟩) :
    wp Rigctld.Answers Rigctld.Takes post (send line >>= fun _ => readLine >>= k) ⟨d, []⟩ := by
  refine wp_bind (wp_send.mpr ⟨trivial, ?_⟩)
  rintro (io | u) x hx
  · cases hx with
    | sendFailed => exact hlost io d [] (.inl rfl)
    | sendLost h => exact hlost io _ _ (.inr ⟨_, h⟩)
  · cases hx with
    | @sent _ rs d' h =>
        refine wp_bind (wp_readLine.mpr ⟨trivial, ?_⟩)
        rintro a y hy
        cases ha : lineOf a with
        | error io =>
            obtain rfl : y.device = d' := hy.device_eq
            exact hlost io y.device y.owed (.inr ⟨rs, h⟩)
        | ok l =>
            obtain ⟨r, rest, rfl, rfl, rfl⟩ := hy.of_read ha
            exact hk r rest d' h

/-- A refused line is read as the error that it tells. -/
theorem Refuses.told {r : Text} (h : Refuses r) :
    ∃ code, parseRprt (trimLine (r ++ ['\n'])) = some code ∧ Told (.hamlib code) := by
  obtain ⟨-, code, hne, hcode⟩ := h
  exact ⟨code, hcode, code, hne, rfl⟩

/-- **The rule of a line that only reads.** -/
theorem wp_readBy {β : Type} {val : β → Prop} {line : Text} {told : List Text → Prop}
    {k : Text → Wire (Except RigError β)}
    (hinv : ∀ rs d', Obeys d line rs d' → ReadBy d rs d' told)
    (hrprt : ∀ answer code, parseRprt answer = some code →
      k answer = .done (.ok (.error (.hamlib code))))
    (hk : ∀ r rest, told (r :: rest) →
      wp Rigctld.Answers Rigctld.Takes (Reads d val) (k (trimLine (r ++ ['\n']))) ⟨d, rest⟩) :
    wp Rigctld.Answers Rigctld.Takes (Reads d val) (send line >>= fun _ => readLine >>= k)
      ⟨d, []⟩ := by
  refine wp_obeyed (fun io d' owed hd => ?_) fun r rest d' hob => ?_
  · rcases hd with rfl | ⟨rs, hob⟩
    · rfl
    · exact (hinv rs d' hob).1
  · obtain ⟨rfl, htold | ⟨_, hrs, href⟩⟩ := hinv _ d' hob
    · exact hk r rest htold
    · cases hrs
      obtain ⟨code, hcode, htold⟩ := href.told
      rw [hrprt _ code hcode]
      exact ⟨rfl, htold⟩

theorem execGetFreq_reads :
    wp Rigctld.Answers Rigctld.Takes (Reads d (· = d.freq)) execGetFreq ⟨d, []⟩ := by
  refine wp_readBy (fun rs d' h => h.freq_inv) (fun answer code h => ?_) fun r rest htold => ?_
  · simp only [h]
    rfl
  · cases htold
    rw [trimLine_plain (plain_decimal _), (plain_decimal _).parseRprt, parseU64_decimal]
    exact ⟨rfl, rfl⟩

theorem execGetMode_reads :
    wp Rigctld.Answers Rigctld.Takes (Reads d (· = d.mode)) execGetMode ⟨d, []⟩ := by
  refine wp_readBy (fun rs d' h => h.mode_inv) (fun answer code h => ?_) fun r rest htold => ?_
  · simp only [h]
    rfl
  · obtain ⟨passband, htold⟩ := htold
    cases htold
    have hplain := plain_of_word d.mode_word
    rw [trimLine_plain hplain, hplain.parseRprt]
    simp only [firstWord_word d.mode_word, if_neg d.mode_ne_nil]
    refine wp_bind (wp_readLine.mpr ⟨trivial, fun a y hy => ?_⟩)
    cases ha : lineOf a with
    | error io => exact hy.device_eq
    | ok l =>
        obtain ⟨r, rest, howed, -, rfl⟩ := hy.of_read ha
        cases howed
        exact ⟨rfl, rfl⟩

theorem execGetPower_reads :
    wp Rigctld.Answers Rigctld.Takes (Reads d fun v => d.rfpower = some v) (execGetPower R)
      ⟨d, []⟩ := by
  refine wp_readBy (fun rs d' h => h.power_inv) (fun answer code h => ?_) fun r rest htold => ?_
  · simp only [h]
    rfl
  · obtain ⟨x, htold, hx⟩ := htold
    cases htold
    have hplain := d.power_plain r hx
    obtain ⟨v, hv, hfin⟩ := d.power_finite r hx
    rw [trimLine_plain hplain, hplain.parseRprt]
    simp only [hv, hfin, if_true]
    exact ⟨rfl, by simp [Device.rfpower, hx, hv]⟩

/-- What a poll may tell. -/
def Device.Shows (d : Device R) (state : RigState F) : Prop :=
  state.freq = d.freq ∧ state.mode = d.mode ∧ (state.power = none ∨ state.power = d.rfpower)

theorem execPoll_reads :
    wp Rigctld.Answers Rigctld.Takes (Reads d d.Shows) (execPoll R) ⟨d, []⟩ := by
  refine wp_bind (wp_mono (fun res x hres => ?_) execGetFreq_reads)
  rcases res with io | e | freq
  · exact hres
  · exact hres
  obtain ⟨rfl, rfl⟩ := hres
  refine wp_bind (wp_mono (fun res x hres => ?_) execGetMode_reads)
  rcases res with io | e | mode
  · exact hres
  · exact hres
  obtain ⟨rfl, rfl⟩ := hres
  refine wp_bind (wp_mono (fun res x hres => ?_) execGetPower_reads)
  rcases res with io | e | power
  · exact hres
  · obtain ⟨rfl, code, hne, rfl⟩ := hres
    exact ⟨rfl, rfl, rfl, .inl rfl⟩
  · obtain ⟨rfl, hpower⟩ := hres
    exact ⟨rfl, rfl, rfl, .inr hpower.symm⟩

/-- **The rule of a line that sets**, to `set`. -/
theorem wp_setBy {set : Device R} {line : Text} {k : Text → Wire α}
    (hinv : ∀ rs d', Obeys d line rs d' → SetBy d rs d' set)
    (hlost : ∀ io d' owed, d' = d ∨ d' = set → post (.error io) ⟨d', owed⟩)
    (hok : ∀ answer, parseSetResponse answer = .ok () →
      wp Rigctld.Answers Rigctld.Takes post (k answer) ⟨set, []⟩)
    (herr : ∀ answer e, parseSetResponse answer = .error e → Told e →
      wp Rigctld.Answers Rigctld.Takes post (k answer) ⟨d, []⟩) :
    wp Rigctld.Answers Rigctld.Takes post (send line >>= fun _ => readLine >>= k) ⟨d, []⟩ := by
  refine wp_obeyed (fun io d' owed hd => ?_) fun r rest d' hob => ?_
  · rcases hd with rfl | ⟨rs, hob⟩
    · exact hlost io d' owed (.inl rfl)
    · rcases hinv rs d' hob with ⟨-, rfl⟩ | ⟨rfl, -⟩
      · exact hlost io d' owed (.inr rfl)
      · exact hlost io d' owed (.inl rfl)
  · rcases hinv _ d' hob with ⟨hrs, rfl⟩ | ⟨rfl, _, hrs, href⟩
    · cases hrs
      exact hok _ (by decide)
    · cases hrs
      obtain ⟨code, hcode, htold⟩ := href.told
      refine herr _ (.hamlib code) ?_ htold
      obtain ⟨c, hne, heq⟩ := htold
      cases heq
      simp [parseSetResponse, hcode]

/-- What a command that sets the device to `set` ends with. -/
def Sets (d set : Device R) : Except IoError (Except RigError Unit) → Rigctld R → Prop
  | .ok (.ok ()), x => x = ⟨set, []⟩
  | .ok (.error e), x => x = ⟨d, []⟩ ∧ Told e
  | .error _, x => x.device = d ∨ x.device = set

theorem set_sets {set : Device R} {line : Text}
    (hinv : ∀ rs d', Obeys d line rs d' → SetBy d rs d' set) :
    wp Rigctld.Answers Rigctld.Takes (Sets d set)
      (send line >>= fun _ => readLine >>= fun answer => pure (parseSetResponse answer))
      ⟨d, []⟩ := by
  refine wp_setBy hinv (fun io d' owed hd => hd) (fun answer h => ?_) fun answer e h htold => ?_
  · rw [h]
    rfl
  · rw [h]
    exact ⟨rfl, htold⟩

/-- Both are set, or the frequency alone, or nothing. -/
def SetsBoth (d : Device R) (hz : UInt64) (mode : HamlibMode) :
    Except IoError (Except RigError Unit) → Rigctld R → Prop
  | .ok (.ok ()), x => x = ⟨(d.setFreq hz).setMode mode, []⟩
  | .ok (.error e), x => (x = ⟨d, []⟩ ∨ x = ⟨d.setFreq hz, []⟩) ∧ Told e
  | .error _, x => Partly d (.setFreqMode hz mode) x.device

theorem execSetFreqMode_sets {hz : UInt64} {mode : HamlibMode} :
    wp Rigctld.Answers Rigctld.Takes (SetsBoth d hz mode) (execSetFreqMode hz mode) ⟨d, []⟩ := by
  refine wp_setBy (fun rs d' h => h.setFreq_inv) (fun io d' owed hd => ?_) (fun answer h => ?_)
    fun answer e h htold => ?_
  · rcases hd with rfl | rfl
    · exact .nothing
    · exact .half
  · simp only [h]
    refine wp_setBy (fun rs d' h => h.setMode_inv) (fun io d' owed hd => ?_) (fun answer h => ?_)
      fun answer e h htold => ?_
    · rcases hd with rfl | rfl
      · exact .half
      · exact .both
    · rw [h]
      rfl
    · rw [h]
      exact ⟨.inr rfl, htold⟩
  · simp only [h]
    exact ⟨.inl rfl, htold⟩

/-- A command has ended at once; when there was no I/O error nothing is owed. -/
def Ended (d : Device R) (cmd : RigCommand)
    (res : Except IoError (Except RigError (Reply F))) (x : Rigctld R) : Prop :=
  Does R d cmd res x.device ∧ ∀ r, res = .ok r → x.owed = []

theorem Reads.ended {β : Type} {val : β → Prop} {cmd : RigCommand} {f : β → Reply F}
    {p : Wire (Except RigError β)} (h : wp Rigctld.Answers Rigctld.Takes (Reads d val) p ⟨d, []⟩)
    (hval : ∀ v, val v → Does R d cmd (.ok (.ok (f v))) d) :
    wp Rigctld.Answers Rigctld.Takes (Ended d cmd) (p >>= fun r => pure (r.map f)) ⟨d, []⟩ := by
  refine wp_bind (wp_mono (fun res x hres => ?_) h)
  rcases res with io | e | v
  · obtain rfl : x.device = d := hres
    exact ⟨.lost .nothing, fun _ h => by cases h⟩
  · obtain ⟨rfl, htold⟩ := hres
    exact ⟨.refused htold, fun _ _ => rfl⟩
  · obtain ⟨rfl, hv⟩ := hres
    exact ⟨hval v hv, fun _ _ => rfl⟩

theorem Sets.ended {set : Device R} {cmd : RigCommand} {p : Wire (Except RigError Unit)}
    (h : wp Rigctld.Answers Rigctld.Takes (Sets d set) p ⟨d, []⟩)
    (hset : Does R d cmd (.ok (.ok .done)) set) (hpart : Partly d cmd set) :
    wp Rigctld.Answers Rigctld.Takes (Ended d cmd)
      (p >>= fun r => pure (r.map fun _ => .done)) ⟨d, []⟩ := by
  refine wp_bind (wp_mono (fun res x hres => ?_) h)
  rcases res with io | e | v
  · refine ⟨.lost ?_, fun _ h => by cases h⟩
    rcases hres with hx | hx
    · exact hx ▸ .nothing
    · exact hx ▸ hpart
  · obtain ⟨rfl, htold⟩ := hres
    exact ⟨.refused htold, fun _ _ => rfl⟩
  · obtain rfl := hres
    exact ⟨hset, fun _ _ => rfl⟩

/-- **A command is carried out as at once**, whatever is late or refused. -/
theorem handleCommand_does (d : Device R) (cmd : RigCommand) :
    wp Rigctld.Answers Rigctld.Takes (Ended d cmd) (handleCommand R cmd) ⟨d, []⟩ := by
  cases cmd with
  | getFreq => exact Reads.ended execGetFreq_reads fun _ h => h ▸ .getFreq
  | getMode => exact Reads.ended execGetMode_reads fun _ h => h ▸ .getMode
  | getPower => exact Reads.ended execGetPower_reads fun _ h => .getPower h
  | poll =>
      refine Reads.ended execPoll_reads ?_
      rintro ⟨_, _, power⟩ ⟨rfl, rfl, hpower⟩
      exact .poll hpower
  | setFreq hz => exact Sets.ended (set_sets fun rs d' h => h.setFreq_inv) .setFreq .setFreq
  | setMode mode => exact Sets.ended (set_sets fun rs d' h => h.setMode_inv) .setMode .setMode
  | setFreqMode hz mode =>
      refine wp_bind (wp_mono (fun res x hres => ?_) execSetFreqMode_sets)
      rcases res with io | e | v
      · exact ⟨.lost hres, fun _ h => by cases h⟩
      · obtain ⟨rfl | rfl, htold⟩ := hres
        · exact ⟨.refused htold, fun _ _ => rfl⟩
        · exact ⟨.halfRefused htold, fun _ _ => rfl⟩
      · obtain rfl := hres
        exact ⟨.setFreqMode, fun _ _ => rfl⟩

end Wp

end WavelogRelay.Rig
