import WavelogRelay.Configuration.Model

/-!
# Configuration — which layer wins

The documented order is CLI, environment, TOML, default.

* `Layered`: every option of a configuration has the value of the highest layer that sets it.
* `Refused`: what is wrong with the values that win.
* `merge_cases`: `merge` fails exactly on what is refused, and otherwise gives every option but the
  switches the value that wins.
* `precedence_iff`: the switches too, unless one that is explicitly off above TOML is on there.
* `env_cannot_switch_off`: such a configuration.
-/

namespace WavelogRelay.Configuration
open Library Modes

/-! ### What the documentation says -/

/-- The value of the first layer that sets an option. -/
def firstSet {α : Type} (layers : List (Option α)) : Option α := layers.findSome? id

theorem firstSet_three {α : Type} (a b c : Option α) : firstSet [a, b, c] = (a.or b).or c := by
  cases a <;> cases b <;> cases c <;> rfl

/-- `0.0 < x`. -/
def F32.isPositive : F32 → Bool
  | .finite value => 0 < value
  | .infinite negative => !negative
  | .nan => false

/-- The URL parses and has a tuple origin. -/
def TupleOrigin (U : Urls) (url : Text) : Prop :=
  ∃ u, U.parse url = some u ∧ U.isTuple u = true

section Layers

variable (U : Urls) (home : HomeEnv) (argv env : Options) (toml : TomlConfig)

/-- The options but the switches have the values of the highest layers that set them. -/
structure Values (cfg : Config) : Prop where
  rigctld : cfg.rigctldEndpoint =
    (firstSet [argv.rigctld, env.rigctld, toml.rigctld]).getD defaultRigctldAddr
  wavelogUrl : some cfg.wavelogUrl = firstSet [argv.wavelogUrl, env.wavelogUrl, toml.wavelogUrl]
  radio : some cfg.radio = firstSet [argv.radio, env.radio, toml.radio]
  powerMax : cfg.powerMaxWatts =
    (firstSet [argv.powerMax, env.powerMax, toml.powerMax]).getD defaultPowerMaxWatts
  listen : cfg.listenAddr = (firstSet [argv.listen, env.listen, toml.listen]).getD defaultListenAddr
  wsListen : cfg.wsListenAddr =
    (firstSet [argv.wsListen, env.wsListen, toml.wsListen]).getD defaultWsListenAddr
  wsjtxListen : cfg.wsjtxListenAddr =
    (firstSet [argv.wsjtxListen, env.wsjtxListen, toml.wsjtxListen]).getD defaultWsjtxListenAddr
  stationId : cfg.stationId = firstSet [argv.stationId, env.stationId, toml.stationId]
  qsoQueuePath : cfg.qsoQueuePath =
    (firstSet [argv.qsoQueuePath, env.qsoQueuePath, toml.qsoQueuePath]).getD
      (defaultQsoQueuePath home)
  interval : cfg.pollInterval =
    (firstSet [argv.interval, env.interval, toml.interval]).getD defaultPollInterval
  rigTimeout : cfg.rigTimeout =
    (firstSet [argv.rigTimeout, env.rigTimeout, toml.rigTimeout]).getD defaultRigTimeout
  logLevel : cfg.logLevel =
    (firstSet [argv.logLevel, env.logLevel, toml.logLevel]).getD defaultLogLevel

/-- Every option has the value of the highest layer that sets it. -/
structure Layered (cfg : Config) : Prop extends Values home argv env toml cfg where
  noWs : cfg.noWs = (firstSet [argv.noWs, env.noWs, toml.noWs]).getD false
  wsjtx : cfg.wsjtx = (firstSet [argv.wsjtx, env.wsjtx, toml.wsjtx]).getD false

/-- What is wrong with the values that win. -/
inductive Refused : Prop where
  | missingWavelogUrl (h : firstSet [argv.wavelogUrl, env.wavelogUrl, toml.wavelogUrl] = none)
  | noTupleOrigin {url : Text}
      (h : firstSet [argv.wavelogUrl, env.wavelogUrl, toml.wavelogUrl] = some url)
      (ho : ¬ TupleOrigin U url)
  | missingRadio (h : firstSet [argv.radio, env.radio, toml.radio] = none)
  | powerMax {watts : F32} (h : watts =
        (firstSet [argv.powerMax, env.powerMax, toml.powerMax]).getD defaultPowerMaxWatts)
      (hw : ¬ (watts.isPositive = true ∧ watts.isFinite = true))
  | interval
      (h : ¬ 0 < (firstSet [argv.interval, env.interval, toml.interval]).getD defaultPollInterval)
  | rigTimeout (h : ¬ 0 <
      (firstSet [argv.rigTimeout, env.rigTimeout, toml.rigTimeout]).getD defaultRigTimeout)

/-- What the documentation says of `merge`. -/
def Precedence (key : Text) : Prop :=
  (∀ cfg, Config.merge U home (Cli.fill argv env) toml key = .ok cfg →
    Layered home argv env toml cfg) ∧
  ((∃ e, Config.merge U home (Cli.fill argv env) toml key = .error e) ↔ Refused U argv env toml)

/-- A switch is off in the highest layer above TOML that sets it, and on in TOML. -/
def SwitchedOff (argv env toml : Option Bool) : Prop :=
  firstSet [argv, env] = some false ∧ toml = some true

instance (argv env toml : Option Bool) : Decidable (SwitchedOff argv env toml) :=
  inferInstanceAs (Decidable (_ ∧ _))

end Layers

/-! ### The merge -/

theorem leZero_or_not_finite (x : F32) :
    (x.leZero || !x.isFinite) = true ↔ ¬ (x.isPositive = true ∧ x.isFinite = true) := by
  cases x with
  | finite value =>
      simp only [F32.leZero, F32.isPositive, F32.isFinite, Bool.not_true, Bool.or_false, and_true,
        decide_eq_true_eq, Rat.not_lt]
  | infinite negative => simp [F32.isFinite]
  | nan => simp [F32.isFinite]

variable {U : Urls} {home : HomeEnv} {argv env : Options} {toml : TomlConfig} {key : Text}

@[simp] theorem ok_bind {α β : Type} (a : α) (f : α → Except ConfigError β) :
    (Except.ok a >>= f) = f a := rfl

@[simp] theorem error_bind {α β : Type} (e : ConfigError) (f : α → Except ConfigError β) :
    ((Except.error e : Except ConfigError α) >>= f) = .error e := rfl

theorem parseOrigin_cases (hU : U.Lawful) (url : Text) :
    (TupleOrigin U url ∧ ∃ origin, parseOrigin U url = .ok origin) ∨
      ¬ TupleOrigin U url ∧ ∃ e, parseOrigin U url = .error e := by
  cases hp : U.parse url with
  | none =>
      refine .inr ⟨?_, .invalidWavelogUrl url, by simp [parseOrigin, hp, okOr]⟩
      rintro ⟨u, h, -⟩
      cases hp.symm.trans h
  | some u =>
      cases ht : U.isTuple u with
      | false =>
          refine .inr ⟨?_, .invalidWavelogUrl url, by simp [parseOrigin, hp, okOr, ht]⟩
          rintro ⟨u', h, h'⟩
          cases hp.symm.trans h
          cases ht.symm.trans h'
      | true =>
          obtain ⟨origin, ho⟩ := Option.isSome_iff_exists.mp (hU.visible u ht)
          exact .inl ⟨⟨u, hp, ht⟩, origin, by simp [parseOrigin, hp, okOr, ht, ho]⟩

/-- **What `merge` does.** -/
theorem merge_cases (home : HomeEnv) (hU : U.Lawful) :
    (Refused U argv env toml ∧
      ∃ e, Config.merge U home (Cli.fill argv env) toml key = .error e) ∨
    ¬ Refused U argv env toml ∧
      ∃ cfg, Config.merge U home (Cli.fill argv env) toml key = .ok cfg ∧
        Values home argv env toml cfg ∧
        cfg.noWs = ((argv.noWs.or env.noWs).getD false || toml.noWs.getD false) ∧
        cfg.wsjtx = ((argv.wsjtx.or env.wsjtx).getD false || toml.wsjtx.getD false) := by
  simp only [Config.merge, Cli.fill, ← firstSet_three]
  cases hurl : firstSet [argv.wavelogUrl, env.wavelogUrl, toml.wavelogUrl] with
  | none => exact .inl ⟨.missingWavelogUrl hurl, _, rfl⟩
  | some url =>
  rcases parseOrigin_cases hU url with ⟨hto, origin, ho⟩ | ⟨hno, e, he⟩
  swap
  · exact .inl ⟨.noTupleOrigin hurl hno, e, by simp only [okOr, he, ok_bind, error_bind]⟩
  cases hradio : firstSet [argv.radio, env.radio, toml.radio] with
  | none =>
      exact .inl ⟨.missingRadio hradio, .missingRadio,
        by simp only [okOr, ho, ok_bind, error_bind]⟩
  | some radio =>
  simp only [okOr, ho, ok_bind]
  split
  case isTrue hw => exact .inl ⟨.powerMax rfl ((leZero_or_not_finite _).mp hw), _, rfl⟩
  case isFalse hw =>
  split
  case isTrue hi => exact .inl ⟨.interval (Nat.not_lt.mpr (Nat.le_of_eq hi)), _, rfl⟩
  case isFalse hi =>
  split
  case isTrue ht => exact .inl ⟨.rigTimeout (Nat.not_lt.mpr (Nat.le_of_eq ht)), _, rfl⟩
  case isFalse ht =>
  refine .inr ⟨?_, _, rfl, ?_, rfl, rfl⟩
  swap
  · exact ⟨rfl, hurl.symm, hradio.symm, rfl, rfl, rfl, rfl, rfl, rfl, rfl, rfl, rfl⟩
  rintro (h | ⟨h, hno⟩ | h | ⟨rfl, h⟩ | h | h)
  · cases hurl.symm.trans h
  · cases hurl.symm.trans h
    exact hno hto
  · cases hradio.symm.trans h
  · exact hw ((leZero_or_not_finite _).mpr h)
  · exact h (Nat.pos_of_ne_zero hi)
  · exact h (Nat.pos_of_ne_zero ht)

/-! ### Precedence -/

/-- A switch has the value that wins, unless it is switched off above TOML and on there. -/
theorem switch_iff (argv env toml : Option Bool) :
    ((argv.or env).getD false || toml.getD false) = (firstSet [argv, env, toml]).getD false ↔
      ¬ SwitchedOff argv env toml := by
  rcases argv with - | _ | _ <;> rcases env with - | _ | _ <;> rcases toml with - | _ | _ <;>
    simp [firstSet, SwitchedOff]

/-- **The documented precedence holds exactly where no switch that is explicitly off above TOML is
on there.** -/
theorem precedence_iff (hU : U.Lawful) :
    Precedence U home argv env toml key ↔
      Refused U argv env toml ∨
        ¬ SwitchedOff argv.noWs env.noWs toml.noWs ∧
          ¬ SwitchedOff argv.wsjtx env.wsjtx toml.wsjtx := by
  rcases merge_cases home hU with ⟨hr, e, he⟩ | ⟨hr, cfg, hcfg, hval, hws, hwx⟩
  · refine ⟨fun _ => .inl hr, fun _ => ⟨?_, fun _ => hr, fun _ => ⟨e, he⟩⟩⟩
    intro cfg hcfg
    cases he.symm.trans hcfg
  · rw [← switch_iff, ← switch_iff, ← hws, ← hwx]
    constructor
    · rintro ⟨hlay, -⟩
      exact .inr ⟨(hlay cfg hcfg).noWs, (hlay cfg hcfg).wsjtx⟩
    · rintro (h | ⟨hnoWs, hwsjtx⟩)
      · exact absurd h hr
      refine ⟨?_, ?_, fun h => absurd h hr⟩
      · intro cfg' hcfg'
        cases hcfg.symm.trans hcfg'
        exact ⟨hval, hnoWs, hwsjtx⟩
      · rintro ⟨e, he⟩
        cases hcfg.symm.trans he

/-! ### Two configurations -/

/-- One URL, with a tuple origin. -/
def oneUrl : Urls where
  Url := Unit
  parse url := if url = "https://log.example/index.php".toList then some () else none
  isTuple _ := true
  asciiSerialization _ := "https://log.example".toList

theorem oneUrl_lawful : oneUrl.Lawful := ⟨fun _ _ => rfl⟩

/-- The required options, on the command line. -/
def required : Options where
  wavelogUrl := some "https://log.example/index.php".toList
  radio := some "FT-710".toList

/-- `--no-ws` wins over TOML, and an interval of zero in TOML is overridden. -/
theorem precedence_overridden :
    Precedence oneUrl ⟨none, none⟩ { required with noWs := some true }
      { interval := some nanosPerSec } { noWs := some false, interval := some 0 } "key".toList :=
  (precedence_iff oneUrl_lawful).mpr (.inr ⟨by decide, by decide⟩)

/-- **`WAVELOG_RELAY_NO_WS=false` does not win over `no_ws = true`.** -/
theorem env_cannot_switch_off :
    oneUrl.Lawful ∧
      ¬ Precedence oneUrl ⟨none, none⟩ required { noWs := some false } { noWs := some true }
          "key".toList := by
  refine ⟨oneUrl_lawful, ?_⟩
  rintro ⟨hlay, -⟩
  have h := (hlay _ rfl).noWs
  cases h

end WavelogRelay.Configuration
