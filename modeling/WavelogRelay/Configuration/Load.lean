import WavelogRelay.Configuration.Merge
import WavelogRelay.Library.Lines

/-!
# Configuration — where the configuration comes from

`Config.load` of `config.rs`, and `StationsConfig.load` of the `stations` subcommand: the
configuration file and the API key are looked for, and the rest is `Config.merge`.  A `Machine` is
what they find: the environment, and what reading a file gives.

`toml` is a parameter, `Toml`.

* `TomlFound`, `KeyFound`: which file is the TOML layer, and which is the key.
* `load_iff`: a configuration is loaded exactly when both are found and nothing that wins is
  refused, and each option has the value of the highest layer that sets it.
* `Alike`: all of the machine that a load looks at.
* `commands_agree`: the subcommand and the daemon load the same credentials, or fail alike.
-/

namespace WavelogRelay.Configuration
open Library Modes

/-! ### The machine -/

inductive IoError where
  | notFound
  | other (message : Text)
  deriving DecidableEq, Repr

/-- The variables of the environment that no option stands for. -/
structure Env extends HomeEnv where
  xdgConfigHome : Option Bytes
  wavelogRelayKey : Option Bytes
  deriving DecidableEq, Repr

/-- The environment, and what `fs::read` gives when the configuration is read, and when the key
is. -/
structure Machine where
  env : Env
  configs : PathBuf → Except IoError Bytes
  keys : PathBuf → Except IoError Bytes

/-- `toml::from_str`, with the message of its error. -/
structure Toml where
  fromStr : Text → Except Text TomlConfig

/-- The errors that `merge` does not have. -/
inductive LoadError where
  | merge (e : ConfigError)
  | missingKey
  | configNotFound (path : PathBuf)
  | configInvalidUtf8 (path : PathBuf)
  | configRead (path : PathBuf) (source : IoError)
  | configParse (path : PathBuf) (message : Text)
  | keyFileRead (path : PathBuf) (source : IoError)
  | keyFileInvalidUtf8 (path : PathBuf)
  | emptyKeyFile (path : PathBuf)
  deriving DecidableEq, Repr

/-! ### The loads -/

def defaultConfigPath (env : Env) : Option PathBuf :=
  (env.xdgConfigHome.or (env.home.map fun h => PathBuf.join h ".config".toList)).map fun dir =>
    PathBuf.join (PathBuf.join dir "wavelog-relay".toList) "config.toml".toList

def loadToml (T : Toml) (m : Machine) (explicit : Option PathBuf) :
    Except LoadError TomlConfig :=
  let found := match explicit with
    | some p => some (p, true)
    | none => (defaultConfigPath m.env).map (·, false)
  match found with
  | none => .ok {}
  | some (path, required) =>
      match m.configs path with
      | .error .notFound => if required then .error (.configNotFound path) else .ok {}
      | .error source => .error (.configRead path source)
      | .ok bytes =>
          match fromUtf8 bytes with
          | none => .error (.configInvalidUtf8 path)
          | some text =>
              match T.fromStr text with
              | .ok toml => .ok toml
              | .error message => .error (.configParse path message)

def readKeyFile (m : Machine) (path : PathBuf) : Except LoadError Text :=
  match m.keys path with
  | .error source => .error (.keyFileRead path source)
  | .ok bytes =>
      match fromUtf8 bytes with
      | none => .error (.keyFileInvalidUtf8 path)
      | some text => if trim text = [] then .error (.emptyKeyFile path) else .ok (trim text)

/-- `env::var("WAVELOG_RELAY_KEY")`, unless it is empty. -/
def rawKey (env : Env) : Option Text := (env.wavelogRelayKey.bind fromUtf8).filter (· ≠ [])

def resolveKey (m : Machine) (cliKeyFile : Option PathBuf) : Except LoadError Text :=
  match rawKey m.env with
  | some raw => .ok raw
  | none =>
      match cliKeyFile with
      | some path => readKeyFile m path
      | none => .error .missingKey

/-- The options of `Cli` that say where to look; like the others they are filled from the command
line, else from the environment. -/
structure Paths where
  keyFile : Option PathBuf := none
  config : Option PathBuf := none
  deriving DecidableEq, Repr

def Config.load (U : Urls) (T : Toml) (m : Machine) (cli : Cli) (paths : Paths) :
    Except LoadError Config := do
  let toml ← loadToml T m paths.config
  let key ← resolveKey m paths.keyFile
  (Config.merge U m.env.toHomeEnv cli toml key).mapError .merge

structure StationsConfig where
  wavelogUrl : Text
  key : Text
  deriving DecidableEq

def StationsConfig.load (U : Urls) (T : Toml) (m : Machine) (cli : Cli) (paths : Paths) :
    Except LoadError StationsConfig := do
  let toml ← loadToml T m paths.config
  let key ← resolveKey m paths.keyFile
  let wavelogUrl ← (okOr (cli.wavelogUrl.or toml.wavelogUrl) .missingWavelogUrl).mapError .merge
  let _ ← (parseOrigin U wavelogUrl).mapError .merge
  return { wavelogUrl, key }

/-! ### What is found -/

/-- Where the configuration file is looked for. -/
def configPath (env : Env) (explicit : Option PathBuf) : Option PathBuf :=
  explicit.or (defaultConfigPath env)

/-- The TOML layer: what the file holds, or nothing where there is none.  A file that is named has
to be there. -/
inductive TomlFound (T : Toml) (m : Machine) (explicit : Option PathBuf) : TomlConfig → Prop where
  | file {path : PathBuf} {text : Text} {toml : TomlConfig}
      (hp : configPath m.env explicit = some path) (hr : m.configs path = .ok (utf8 text))
      (ht : T.fromStr text = .ok toml) : TomlFound T m explicit toml
  | absent {path : PathBuf} (he : explicit = none) (hp : defaultConfigPath m.env = some path)
      (hr : m.configs path = .error .notFound) : TomlFound T m explicit {}
  | nowhere (hp : configPath m.env explicit = none) : TomlFound T m explicit {}

/-- The variable holds a key. -/
def KeySet (env : Env) (key : Text) : Prop := env.wavelogRelayKey = some (utf8 key) ∧ key ≠ []

/-- The API key: that of the variable, or else what the key file holds between white space. -/
inductive KeyFound (m : Machine) (keyFile : Option PathBuf) : Text → Prop where
  | environment {key : Text} (h : KeySet m.env key) : KeyFound m keyFile key
  | file {path : PathBuf} {text key : Text} (hno : ∀ raw, ¬ KeySet m.env raw)
      (hp : keyFile = some path) (hr : m.keys path = .ok (utf8 text)) (ht : Trimmed text key)
      (hne : key ≠ []) : KeyFound m keyFile key

variable {U : Urls} {T : Toml} {m m' : Machine} {cli cli' : Cli} {argv env : Options}
  {paths : Paths} {cfg : Config}

theorem rawKey_eq_some_iff {env : Env} {key : Text} : rawKey env = some key ↔ KeySet env key := by
  rw [rawKey, Option.filter_eq_some_iff, Option.bind_eq_some_iff]
  constructor
  · rintro ⟨⟨bytes, hb, hkey⟩, hne⟩
    obtain rfl := fromUtf8_eq_some_iff.mp hkey
    exact ⟨hb, of_decide_eq_true hne⟩
  · rintro ⟨hb, hne⟩
    exact ⟨⟨utf8 key, hb, fromUtf8_eq_some_iff.mpr rfl⟩, decide_eq_true hne⟩

theorem loadToml_nowhere {explicit : Option PathBuf} (hp : configPath m.env explicit = none) :
    loadToml T m explicit = .ok {} := by
  cases explicit with
  | some path => cases hp
  | none =>
      have hd : defaultConfigPath m.env = none := hp
      simp only [loadToml, hd, Option.map_none]

/-- What `load_toml` makes of a file that is read. -/
def tomlOf (T : Toml) (path : PathBuf) (bytes : Bytes) : Except LoadError TomlConfig :=
  match fromUtf8 bytes with
  | none => .error (.configInvalidUtf8 path)
  | some text =>
      match T.fromStr text with
      | .ok toml => .ok toml
      | .error message => .error (.configParse path message)

theorem loadToml_somewhere {explicit : Option PathBuf} {path : PathBuf}
    (hp : configPath m.env explicit = some path) :
    loadToml T m explicit =
      match m.configs path with
      | .error .notFound => if explicit.isSome then .error (.configNotFound path) else .ok {}
      | .error source => .error (.configRead path source)
      | .ok bytes => tomlOf T path bytes := by
  cases explicit with
  | some path' =>
      cases hp
      rfl
  | none =>
      have hd : defaultConfigPath m.env = some path := hp
      simp only [loadToml, hd, Option.map_some]
      rfl

theorem tomlOf_eq_ok_iff {path : PathBuf} {bytes : Bytes} {toml : TomlConfig} :
    tomlOf T path bytes = .ok toml ↔ ∃ text, bytes = utf8 text ∧ T.fromStr text = .ok toml := by
  rw [tomlOf]
  constructor
  · intro h
    split at h
    · cases h
    · rename_i text htext
      split at h
      · rename_i toml' ht
        cases h
        exact ⟨text, fromUtf8_eq_some_iff.mp htext, ht⟩
      · cases h
  · rintro ⟨text, rfl, ht⟩
    simp only [fromUtf8_eq_some_iff.mpr rfl, ht]

theorem loadToml_eq_ok_iff {explicit : Option PathBuf} {toml : TomlConfig} :
    loadToml T m explicit = .ok toml ↔ TomlFound T m explicit toml := by
  constructor
  · intro h
    cases hp : configPath m.env explicit with
    | none =>
        cases (loadToml_nowhere hp).symm.trans h
        exact .nowhere hp
    | some path =>
        rw [loadToml_somewhere hp] at h
        split at h
        · rename_i hr
          cases explicit with
          | some path' => cases h
          | none =>
              cases h
              exact .absent rfl hp hr
        · cases h
        · rename_i bytes hr
          obtain ⟨text, rfl, ht⟩ := tomlOf_eq_ok_iff.mp h
          exact .file hp hr ht
  · intro h
    cases h with
    | file hp hr ht =>
        rw [loadToml_somewhere hp, hr]
        exact tomlOf_eq_ok_iff.mpr ⟨_, rfl, ht⟩
    | absent he hp hr =>
        subst he
        have hpath : configPath m.env none = some _ := hp
        rw [loadToml_somewhere hpath, hr]
        rfl
    | nowhere hp => exact loadToml_nowhere hp

theorem readKeyFile_eq_ok_iff {path : PathBuf} {key : Text} :
    readKeyFile m path = .ok key ↔
      ∃ text, m.keys path = .ok (utf8 text) ∧ Trimmed text key ∧ key ≠ [] := by
  rw [readKeyFile]
  constructor
  · intro h
    cases hr : m.keys path with
    | error source =>
        rw [hr] at h
        cases h
    | ok bytes =>
        rw [hr] at h
        cases htext : fromUtf8 bytes with
        | none =>
            simp only [htext] at h
            cases h
        | some text =>
            simp only [htext] at h
            split at h
            · cases h
            · rename_i hne
              cases h
              obtain rfl := fromUtf8_eq_some_iff.mp htext
              exact ⟨text, rfl, trimmed_trim text, hne⟩
  · rintro ⟨text, hr, ht, hne⟩
    obtain rfl := trimmed_iff.mp ht
    simp only [hr, fromUtf8_eq_some_iff.mpr rfl]
    exact if_neg hne

theorem resolveKey_eq_ok_iff {keyFile : Option PathBuf} {key : Text} :
    resolveKey m keyFile = .ok key ↔ KeyFound m keyFile key := by
  rw [resolveKey.eq_def]
  constructor
  · intro h
    cases hraw : rawKey m.env with
    | some raw =>
        rw [hraw] at h
        cases h
        exact .environment (rawKey_eq_some_iff.mp hraw)
    | none =>
        rw [hraw] at h
        cases keyFile with
        | none => cases h
        | some path =>
            obtain ⟨text, hr, ht, hne⟩ := readKeyFile_eq_ok_iff.mp h
            refine .file (fun raw hset => ?_) rfl hr ht hne
            cases hraw.symm.trans (rawKey_eq_some_iff.mpr hset)
  · intro h
    cases h with
    | environment h => rw [rawKey_eq_some_iff.mpr h]
    | file hno hp hr ht hne =>
        have hraw : rawKey m.env = none :=
          Option.eq_none_iff_forall_ne_some.mpr fun raw h => hno raw (rawKey_eq_some_iff.mp h)
        rw [hraw, hp]
        exact readKeyFile_eq_ok_iff.mpr ⟨_, hr, ht, hne⟩

/-! ### What is loaded -/

/-- The options that no layer but TOML and no parse but that of the URL has a part in. -/
theorem merge_ok {home : HomeEnv} {toml : TomlConfig} {key : Text}
    (h : Config.merge U home cli toml key = .ok cfg) :
    cli.wavelogUrl.or toml.wavelogUrl = some cfg.wavelogUrl ∧
      parseOrigin U cfg.wavelogUrl = .ok cfg.wavelogOrigin ∧ cfg.key = key ∧
        cfg.modeOverrides = toml.modeOverrides := by
  rw [Config.merge] at h
  cases hurl : cli.wavelogUrl.or toml.wavelogUrl with
  | none => simp [hurl, okOr] at h
  | some url =>
      cases ho : parseOrigin U url with
      | error e => simp [hurl, okOr, ho] at h
      | ok origin =>
          cases hradio : cli.radio.or toml.radio with
          | none => simp [hurl, okOr, ho, hradio] at h
          | some radio =>
              simp only [hurl, okOr, ho, hradio, ok_bind] at h
              split at h
              · cases h
              split at h
              · cases h
              split at h
              · cases h
              cases h
              exact ⟨rfl, ho, rfl, rfl⟩

/-- The configuration of the layers `argv`, `env` and the TOML file, and of the key: each option is
that of the highest layer which sets it, but for the two switches.  A switch is on where the higher
of `argv` and `env` that sets it has it on, or the TOML file has. -/
structure Effective (U : Urls) (T : Toml) (m : Machine) (argv env : Options)
    (paths : Paths) (cfg : Config) : Prop where
  key : KeyFound m paths.keyFile cfg.key
  origin : parseOrigin U cfg.wavelogUrl = .ok cfg.wavelogOrigin
  layers : ∃ toml, TomlFound T m paths.config toml ∧ ¬ Refused U argv env toml ∧
    Values m.env.toHomeEnv argv env toml cfg ∧
    cfg.noWs = ((argv.noWs.or env.noWs).getD false || toml.noWs.getD false) ∧
    cfg.wsjtx = ((argv.wsjtx.or env.wsjtx).getD false || toml.wsjtx.getD false) ∧
    cfg.modeOverrides = toml.modeOverrides

section Sequence

variable {ε ε' α β : Type}

theorem bind_eq_ok_iff {x : Except ε α} {f : α → Except ε β} {b : β} :
    (x >>= f) = .ok b ↔ ∃ a, x = .ok a ∧ f a = .ok b := by
  constructor
  · intro h
    cases x with
    | error e => cases h
    | ok a => exact ⟨a, rfl, h⟩
  · rintro ⟨a, rfl, h⟩
    exact h

/-- The first of the two that fails has the error. -/
theorem bind_eq_error_iff {x : Except ε α} {f : α → Except ε β} {e : ε} :
    (x >>= f) = .error e ↔ x = .error e ∨ ∃ a, x = .ok a ∧ f a = .error e := by
  constructor
  · intro h
    cases x with
    | error e' =>
        cases h
        exact .inl rfl
    | ok a => exact .inr ⟨a, rfl, h⟩
  · rintro (rfl | ⟨a, rfl, h⟩)
    · rfl
    · exact h

theorem mapError_eq_ok_iff {x : Except ε α} {f : ε → ε'} {a : α} :
    x.mapError f = .ok a ↔ x = .ok a := by
  cases x with
  | error e => exact ⟨fun h => (by cases h), fun h => (by cases h)⟩
  | ok b => exact ⟨fun h => (by cases h; rfl), fun h => (by cases h; rfl)⟩

theorem mapError_eq_error_iff {x : Except ε α} {f : ε → ε'} {e' : ε'} :
    x.mapError f = .error e' ↔ ∃ e, x = .error e ∧ f e = e' := by
  cases x with
  | error e =>
      constructor
      · intro h
        cases h
        exact ⟨e, rfl, rfl⟩
      · rintro ⟨e₁, h, rfl⟩
        cases h
        rfl
  | ok a =>
      constructor
      · intro h
        cases h
      · rintro ⟨e, h, -⟩
        cases h

end Sequence

theorem load_ok_iff : Config.load U T m cli paths = .ok cfg ↔
    ∃ toml, loadToml T m paths.config = .ok toml ∧ ∃ key, resolveKey m paths.keyFile = .ok key ∧
      Config.merge U m.env.toHomeEnv cli toml key = .ok cfg := by
  simp only [Config.load, bind_eq_ok_iff, mapError_eq_ok_iff]

/-- There is one such configuration at most. -/
theorem Effective.unique {cfg' : Config} (h : Effective U T m argv env paths cfg)
    (h' : Effective U T m argv env paths cfg') : cfg = cfg' := by
  obtain ⟨hkey, horigin, toml, htoml, -, hv, hws, hwx, hmodes⟩ := h
  obtain ⟨hkey', horigin', toml', htoml', -, hv', hws', hwx', hmodes'⟩ := h'
  obtain rfl : toml = toml' := Except.ok.inj
    ((loadToml_eq_ok_iff.mpr htoml).symm.trans (loadToml_eq_ok_iff.mpr htoml'))
  have hkeys : cfg.key = cfg'.key := Except.ok.inj
    ((resolveKey_eq_ok_iff.mpr hkey).symm.trans (resolveKey_eq_ok_iff.mpr hkey'))
  have hurl : cfg.wavelogUrl = cfg'.wavelogUrl :=
    Option.some.inj (hv.wavelogUrl.trans hv'.wavelogUrl.symm)
  have horigins : cfg.wavelogOrigin = cfg'.wavelogOrigin := by
    rw [hurl] at horigin
    exact Except.ok.inj (horigin.symm.trans horigin')
  have hradio : cfg.radio = cfg'.radio := Option.some.inj (hv.radio.trans hv'.radio.symm)
  cases cfg
  cases cfg'
  rw [Config.mk.injEq]
  exact ⟨hv.rigctld.trans hv'.rigctld.symm, hv.rigTimeout.trans hv'.rigTimeout.symm, hurl, horigins,
    hradio, hkeys, hv.powerMax.trans hv'.powerMax.symm, hv.listen.trans hv'.listen.symm,
    hv.wsListen.trans hv'.wsListen.symm, hws.trans hws'.symm, hwx.trans hwx'.symm,
    hv.wsjtxListen.trans hv'.wsjtxListen.symm, hv.stationId.trans hv'.stationId.symm,
    hv.qsoQueuePath.trans hv'.qsoQueuePath.symm, hv.interval.trans hv'.interval.symm,
    hv.logLevel.trans hv'.logLevel.symm, hmodes.trans hmodes'.symm⟩

/-- What is merged is effective. -/
theorem effective_of_merge (hU : U.Lawful) {toml : TomlConfig} {key : Text}
    (ht : TomlFound T m paths.config toml) (hk : KeyFound m paths.keyFile key)
    (hm : Config.merge U m.env.toHomeEnv (Cli.fill argv env) toml key = .ok cfg) :
    Effective U T m argv env paths cfg := by
  obtain ⟨-, horigin, rfl, hmodes⟩ := merge_ok hm
  rcases merge_cases m.env.toHomeEnv hU with ⟨-, e, he⟩ | ⟨hr, cfg', hcfg, hval, hws, hwx⟩
  · cases he.symm.trans hm
  · cases hcfg.symm.trans hm
    exact ⟨hk, horigin, toml, ht, hr, hval, hws, hwx, hmodes⟩

/-- **What is loaded is the effective configuration**, and nothing is loaded where there is none:
a file or a key is missing, or unreadable, or a value that wins is refused. -/
theorem load_iff (hU : U.Lawful) :
    Config.load U T m (Cli.fill argv env) paths = .ok cfg ↔
      Effective U T m argv env paths cfg := by
  rw [load_ok_iff]
  constructor
  · rintro ⟨toml, ht, key, hk, hm⟩
    exact effective_of_merge hU (loadToml_eq_ok_iff.mp ht) (resolveKey_eq_ok_iff.mp hk) hm
  · intro h
    obtain ⟨toml, ht, hr, -⟩ := h.layers
    rcases @merge_cases _ _ _ _ cfg.key m.env.toHomeEnv hU with ⟨hr', -⟩ | ⟨-, cfg', hm, -⟩
    · exact absurd hr' hr
    · obtain rfl := (effective_of_merge hU ht h.key hm).unique h
      exact ⟨toml, loadToml_eq_ok_iff.mpr ht, cfg'.key, resolveKey_eq_ok_iff.mpr h.key, hm⟩

/-- There is no configuration file, and the key file ends with a newline. -/
def keyMachine : Machine where
  env :=
    { xdgStateHome := none
      home := some (utf8 "/home/op".toList)
      xdgConfigHome := none
      wavelogRelayKey := none }
  configs _ := .error .notFound
  keys _ := .ok (utf8 "s3cret\n".toList)

def noToml : Toml := ⟨fun _ => .error []⟩

def keyPaths : Paths := { keyFile := some (utf8 "/run/key".toList) }

theorem key_found : KeyFound keyMachine keyPaths.keyFile "s3cret".toList := by
  refine .file (fun raw h => by cases h.1) rfl rfl ?_ (by decide)
  exact trimmed_iff.mpr (by decide)

theorem key_file_loaded : ∃ cfg, Config.load oneUrl noToml keyMachine (Cli.fill required {})
    keyPaths = .ok cfg ∧ cfg.key = "s3cret".toList := by
  obtain ⟨cfg, hm⟩ : ∃ cfg, Config.merge oneUrl keyMachine.env.toHomeEnv (Cli.fill required {}) {}
    "s3cret".toList = .ok cfg := ⟨_, rfl⟩
  have htoml : TomlFound noToml keyMachine keyPaths.config {} := .absent rfl rfl rfl
  exact ⟨cfg, (load_iff oneUrl_lawful).mpr (effective_of_merge oneUrl_lawful htoml key_found hm),
    (merge_ok hm).2.2.1⟩

/-! ### Two commands -/

/-- Nothing that either command looks at differs between the machines. -/
structure Alike (m m' : Machine) (paths : Paths) : Prop where
  path : configPath m.env paths.config = configPath m'.env paths.config
  config : ∀ path, configPath m.env paths.config = some path → m.configs path = m'.configs path
  rawKey : rawKey m.env = rawKey m'.env
  /-- The key file is not even read where the variable holds a key. -/
  key : Configuration.rawKey m.env = none → ∀ path, paths.keyFile = some path →
    m.keys path = m'.keys path

theorem Alike.loadToml_eq (h : Alike m m' paths) :
    loadToml T m paths.config = loadToml T m' paths.config := by
  cases hp : configPath m.env paths.config with
  | none => rw [loadToml_nowhere hp, loadToml_nowhere (h.path.symm.trans hp)]
  | some path =>
      rw [loadToml_somewhere hp, loadToml_somewhere (h.path.symm.trans hp), h.config path hp]

theorem Alike.resolveKey_eq (h : Alike m m' paths) :
    resolveKey m paths.keyFile = resolveKey m' paths.keyFile := by
  rw [resolveKey.eq_def, resolveKey.eq_def, ← h.rawKey]
  cases hraw : Configuration.rawKey m.env with
  | some raw => rfl
  | none =>
      cases hk : paths.keyFile with
      | none => rfl
      | some path =>
          change readKeyFile m path = readKeyFile m' path
          rw [readKeyFile, readKeyFile, h.key hraw path hk]

/-- The errors of what the subcommand does not look at. -/
def ConfigError.DaemonOnly : ConfigError → Prop
  | .missingRadio | .invalidPowerMax _ | .invalidInterval | .invalidRigTimeout => True
  | .missingWavelogUrl | .invalidWavelogUrl _ => False

/-- `merge` looks at the URL first. -/
theorem merge_error {home : HomeEnv} {toml : TomlConfig} {key : Text} {e : ConfigError}
    (h : Config.merge U home cli toml key = .error e) :
    (cli.wavelogUrl.or toml.wavelogUrl = none ∧ e = .missingWavelogUrl) ∨
      ∃ url, cli.wavelogUrl.or toml.wavelogUrl = some url ∧
        (parseOrigin U url = .error e ∨
          e.DaemonOnly ∧ ∃ origin, parseOrigin U url = .ok origin) := by
  rw [Config.merge] at h
  cases hurl : cli.wavelogUrl.or toml.wavelogUrl with
  | none =>
      simp only [hurl, okOr, error_bind] at h
      cases h
      exact .inl ⟨rfl, rfl⟩
  | some url =>
      cases ho : parseOrigin U url with
      | error e' =>
          simp only [hurl, okOr, ho, ok_bind, error_bind] at h
          cases h
          exact .inr ⟨url, rfl, .inl ho⟩
      | ok origin =>
          refine .inr ⟨url, rfl, .inr ⟨?_, origin, ho⟩⟩
          cases hradio : cli.radio.or toml.radio with
          | none =>
              simp only [hurl, okOr, ho, hradio, ok_bind, error_bind] at h
              cases h
              trivial
          | some radio =>
              simp only [hurl, okOr, ho, hradio, ok_bind] at h
              split at h
              · cases h
                trivial
              split at h
              · cases h
                trivial
              split at h
              · cases h
                trivial
              cases h

/-- How the daemon and the subcommand stand to each other. -/
structure Agreement (daemon : Except LoadError Config)
    (stations : Except LoadError StationsConfig) : Prop where
  /-- Where the daemon starts, the subcommand asks the same Wavelog with the same key. -/
  credentials : ∀ cfg, daemon = .ok cfg → stations = .ok ⟨cfg.wavelogUrl, cfg.key⟩
  /-- What is wrong for the subcommand is wrong for the daemon, in the same words. -/
  errors : ∀ e, stations = .error e → daemon = .error e
  /-- Only an option of the daemon can be wrong for it alone. -/
  daemonOnly : ∀ e s, daemon = .error e → stations = .ok s → ∃ e', e = .merge e' ∧ e'.DaemonOnly

theorem merge_of_url_error {home : HomeEnv} {toml : TomlConfig} {key : Text} {e : ConfigError}
    (h : okOr (cli.wavelogUrl.or toml.wavelogUrl) .missingWavelogUrl = .error e ∨
      ∃ url, okOr (cli.wavelogUrl.or toml.wavelogUrl) .missingWavelogUrl = .ok url ∧
        parseOrigin U url = .error e) :
    Config.merge U home cli toml key = .error e := by
  rw [Config.merge]
  rcases h with h | ⟨url, hurl, ho⟩
  · rw [h]
    rfl
  · rw [hurl, ok_bind, ho]
    rfl

/-- **The two commands agree**, run one after the other, with any options of the daemon. -/
theorem commands_agree (hm : Alike m m' paths) (hurl : cli'.wavelogUrl = cli.wavelogUrl) :
    Agreement (Config.load U T m cli paths) (StationsConfig.load U T m' cli' paths) := by
  have hstations : StationsConfig.load U T m' cli' paths = do
      let toml ← loadToml T m paths.config
      let key ← resolveKey m paths.keyFile
      let wavelogUrl ← (okOr (cli.wavelogUrl.or toml.wavelogUrl) .missingWavelogUrl).mapError .merge
      let _ ← (parseOrigin U wavelogUrl).mapError .merge
      return { wavelogUrl, key } := by
    rw [StationsConfig.load, hurl, hm.loadToml_eq, hm.resolveKey_eq]
  rw [hstations]
  refine ⟨fun cfg h => ?_, fun e h => ?_, fun e s h hs => ?_⟩
  · obtain ⟨toml, ht, key, hk, hmerge⟩ := load_ok_iff.mp h
    obtain ⟨hwin, horigin, rfl, -⟩ := merge_ok hmerge
    have hok : okOr (cli.wavelogUrl.or toml.wavelogUrl) .missingWavelogUrl =
        .ok cfg.wavelogUrl := by
      rw [hwin]
      rfl
    simp only [bind_eq_ok_iff, mapError_eq_ok_iff]
    exact ⟨toml, ht, cfg.key, hk, cfg.wavelogUrl, hok, cfg.wavelogOrigin, horigin, rfl⟩
  · rw [Config.load, bind_eq_error_iff]
    simp only [bind_eq_error_iff, mapError_eq_error_iff, mapError_eq_ok_iff] at h ⊢
    rcases h with h | ⟨toml, ht, h | ⟨key, hk, h⟩⟩
    · exact .inl h
    · exact .inr ⟨toml, ht, .inl h⟩
    refine .inr ⟨toml, ht, .inr ⟨key, hk, ?_⟩⟩
    rcases h with ⟨e', he, rfl⟩ | ⟨url, hurl, ⟨e', he, rfl⟩ | ⟨origin, -, h⟩⟩
    · exact ⟨e', merge_of_url_error (.inl he), rfl⟩
    · exact ⟨e', merge_of_url_error (.inr ⟨url, hurl, he⟩), rfl⟩
    · cases h
  · simp only [bind_eq_ok_iff, mapError_eq_ok_iff] at hs
    obtain ⟨toml, ht, key, hk, url, hok, origin, horigin, -⟩ := hs
    rw [Config.load, ht, hk] at h
    obtain ⟨e', he, rfl⟩ := mapError_eq_error_iff.mp h
    refine ⟨e', rfl, ?_⟩
    rcases merge_error he with ⟨hnone, -⟩ | ⟨url', hwin, herr | ⟨honly, -⟩⟩
    · rw [hnone] at hok
      cases hok
    · rw [hwin] at hok
      cases hok
      cases herr.symm.trans horigin
    · exact honly

/-- The daemon's queue has moved to another directory meanwhile. -/
theorem moved_agree : Agreement
    (Config.load oneUrl noToml keyMachine (Cli.fill required {}) keyPaths)
    (StationsConfig.load oneUrl noToml
      { keyMachine with env := { keyMachine.env with xdgStateHome := some [] } }
      (Cli.fill { wavelogUrl := required.wavelogUrl } {}) keyPaths) :=
  commands_agree ⟨rfl, fun _ _ => rfl, rfl, fun _ _ _ => rfl⟩ rfl

end WavelogRelay.Configuration
