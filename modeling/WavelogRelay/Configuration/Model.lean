import WavelogRelay.Library.FileName
import WavelogRelay.Modes
import WavelogRelay.Util

/-!
# Configuration — the layers of the configuration

`config.rs`: the options as `Cli` and `TomlConfig` hold them, and `Config.merge`, which makes the
runtime configuration of them.

`Options` is one layer: each option set or not.  `Cli.fill` is what `clap` does with the first two
layers, the command line and the environment: a field of `Cli` is the first of the two that is
set, and a switch that neither sets is `false`.

`reqwest::Url` is a parameter, `Urls`; `Urls.Lawful` is what `parse_origin` relies on.
-/

namespace WavelogRelay.Configuration
open Library Modes

/-! ### Values -/

inductive SocketAddr where
  | v4 (a b c d : UInt8) (port : UInt16)
  | v6 (address : BitVec 128) (port : UInt16) (flowinfo scopeId : UInt32)
  deriving DecidableEq, Repr

inductive Endpoint where
  | resolved (addr : SocketAddr)
  | host (host : Text) (port : UInt16)
  deriving DecidableEq, Repr

/-- A value of `f32`. -/
inductive F32 where
  | finite (value : Rat)
  | infinite (negative : Bool)
  | nan
  deriving DecidableEq, Repr

/-- `x <= 0.0`. -/
def F32.leZero : F32 → Bool
  | .finite value => value ≤ 0
  | .infinite negative => negative
  | .nan => false

def F32.isFinite : F32 → Bool
  | .finite _ => true
  | _ => false

/-- A path, as its bytes. -/
abbrev PathBuf := Bytes

/-- `Path::join`, with a relative path. -/
def PathBuf.join (dir : PathBuf) (path : Text) : PathBuf :=
  if dir = [] ∨ dir.getLast? = some slash then dir ++ utf8 path else dir ++ slash :: utf8 path

/-- `HeaderValue::from_str`. -/
def headerValue (s : Text) : Option Bytes :=
  if (utf8 s).all fun b => (32 ≤ b && b < 127) || b == 9 then some (utf8 s) else none

/-! ### URLs -/

/-- What is used of `reqwest::Url`: `parse`, and `is_tuple` and `ascii_serialization` of the
origin. -/
structure Urls where
  Url : Type
  parse : Text → Option Url
  isTuple : Url → Bool
  asciiSerialization : Url → Text

/-- The serialization of a tuple origin is a header value: a scheme, a host and a port in visible
ASCII. -/
structure Urls.Lawful (U : Urls) : Prop where
  visible : ∀ url, U.isTuple url = true → (headerValue (U.asciiSerialization url)).isSome

/-! ### Layers -/

/-- A layer of options. -/
structure Options where
  rigctld : Option Endpoint := none
  wavelogUrl : Option Text := none
  radio : Option Text := none
  powerMax : Option F32 := none
  listen : Option SocketAddr := none
  wsListen : Option SocketAddr := none
  noWs : Option Bool := none
  wsjtx : Option Bool := none
  wsjtxListen : Option SocketAddr := none
  stationId : Option Text := none
  qsoQueuePath : Option PathBuf := none
  interval : Option Duration := none
  rigTimeout : Option Duration := none
  logLevel : Option Text := none
  deriving DecidableEq

structure TomlConfig extends Options where
  modeOverrides : ModeOverrides := {}
  deriving DecidableEq

structure Cli where
  rigctld : Option Endpoint
  wavelogUrl : Option Text
  radio : Option Text
  powerMax : Option F32
  listen : Option SocketAddr
  wsListen : Option SocketAddr
  noWs : Bool
  wsjtx : Bool
  wsjtxListen : Option SocketAddr
  stationId : Option Text
  qsoQueuePath : Option PathBuf
  interval : Option Duration
  rigTimeout : Option Duration
  logLevel : Option Text
  deriving DecidableEq

/-- `Cli::parse`: each field from the command line, else from the environment. -/
def Cli.fill (argv env : Options) : Cli where
  rigctld := argv.rigctld.or env.rigctld
  wavelogUrl := argv.wavelogUrl.or env.wavelogUrl
  radio := argv.radio.or env.radio
  powerMax := argv.powerMax.or env.powerMax
  listen := argv.listen.or env.listen
  wsListen := argv.wsListen.or env.wsListen
  noWs := (argv.noWs.or env.noWs).getD false
  wsjtx := (argv.wsjtx.or env.wsjtx).getD false
  wsjtxListen := argv.wsjtxListen.or env.wsjtxListen
  stationId := argv.stationId.or env.stationId
  qsoQueuePath := argv.qsoQueuePath.or env.qsoQueuePath
  interval := argv.interval.or env.interval
  rigTimeout := argv.rigTimeout.or env.rigTimeout
  logLevel := argv.logLevel.or env.logLevel

/-! ### Defaults -/

/-- `DEFAULT_RIGCTLD_ADDR`, parsed. -/
def defaultRigctldAddr : Endpoint := .resolved (.v4 127 0 0 1 4532)

def defaultListenAddr : SocketAddr := .v4 127 0 0 1 54321

def defaultWsListenAddr : SocketAddr := .v4 127 0 0 1 54322

def defaultWsjtxListenAddr : SocketAddr := .v4 127 0 0 1 2237

def defaultPowerMaxWatts : F32 := .finite 100

def defaultPollInterval : Duration := 1 * nanosPerSec

def defaultRigTimeout : Duration := 5 * nanosPerSec

def defaultLogLevel : Text := "info".toList

/-- The variables that the default path of the queue is made of. -/
structure HomeEnv where
  xdgStateHome : Option Bytes
  home : Option Bytes
  deriving DecidableEq, Repr

def defaultQsoQueuePath (env : HomeEnv) : PathBuf :=
  let dir := (env.xdgStateHome.or
    (env.home.map fun h => PathBuf.join (PathBuf.join h ".local".toList) "state".toList)).getD
      (utf8 ".".toList)
  PathBuf.join (PathBuf.join dir "wavelog-relay".toList) "qso_queue.jsonl".toList

/-! ### The merge -/

structure Config where
  rigctldEndpoint : Endpoint
  rigTimeout : Duration
  wavelogUrl : Text
  wavelogOrigin : Bytes
  radio : Text
  key : Text
  powerMaxWatts : F32
  listenAddr : SocketAddr
  wsListenAddr : SocketAddr
  noWs : Bool
  wsjtx : Bool
  wsjtxListenAddr : SocketAddr
  stationId : Option Text
  qsoQueuePath : PathBuf
  pollInterval : Duration
  logLevel : Text
  modeOverrides : ModeOverrides
  deriving DecidableEq

/-- The errors of `merge`. -/
inductive ConfigError where
  | missingWavelogUrl
  | missingRadio
  | invalidWavelogUrl (url : Text)
  | invalidPowerMax (watts : F32)
  | invalidInterval
  | invalidRigTimeout
  deriving DecidableEq, Repr

/-- `Option::ok_or`. -/
def okOr {α : Type} (o : Option α) (e : ConfigError) : Except ConfigError α :=
  match o with
  | some a => .ok a
  | none => .error e

def parseOrigin (U : Urls) (wavelogUrl : Text) : Except ConfigError Bytes := do
  let url ← okOr (U.parse wavelogUrl) (.invalidWavelogUrl wavelogUrl)
  if !U.isTuple url then
    .error (.invalidWavelogUrl wavelogUrl)
  else
    okOr (headerValue (U.asciiSerialization url)) (.invalidWavelogUrl wavelogUrl)

def Config.merge (U : Urls) (home : HomeEnv) (cli : Cli) (toml : TomlConfig) (key : Text) :
    Except ConfigError Config := do
  let rigctldEndpoint := (cli.rigctld.or toml.rigctld).getD defaultRigctldAddr
  let wavelogUrl ← okOr (cli.wavelogUrl.or toml.wavelogUrl) .missingWavelogUrl
  let wavelogOrigin ← parseOrigin U wavelogUrl
  let radio ← okOr (cli.radio.or toml.radio) .missingRadio
  let powerMaxWatts := (cli.powerMax.or toml.powerMax).getD defaultPowerMaxWatts
  if powerMaxWatts.leZero || !powerMaxWatts.isFinite then
    .error (.invalidPowerMax powerMaxWatts)
  else
    let listenAddr := (cli.listen.or toml.listen).getD defaultListenAddr
    let wsListenAddr := (cli.wsListen.or toml.wsListen).getD defaultWsListenAddr
    let noWs := cli.noWs || toml.noWs.getD false
    let wsjtx := cli.wsjtx || toml.wsjtx.getD false
    let wsjtxListenAddr := (cli.wsjtxListen.or toml.wsjtxListen).getD defaultWsjtxListenAddr
    let stationId := cli.stationId.or toml.stationId
    let qsoQueuePath := (cli.qsoQueuePath.or toml.qsoQueuePath).getD (defaultQsoQueuePath home)
    let pollInterval := (cli.interval.or toml.interval).getD defaultPollInterval
    if pollInterval = 0 then
      .error .invalidInterval
    else
      let rigTimeout := (cli.rigTimeout.or toml.rigTimeout).getD defaultRigTimeout
      if rigTimeout = 0 then
        .error .invalidRigTimeout
      else
        let logLevel := (cli.logLevel.or toml.logLevel).getD defaultLogLevel
        return { rigctldEndpoint, rigTimeout, wavelogUrl, wavelogOrigin, radio, key,
                 powerMaxWatts, listenAddr, wsListenAddr, noWs, wsjtx, wsjtxListenAddr, stationId,
                 qsoQueuePath, pollInterval, logLevel, modeOverrides := toml.modeOverrides }

end WavelogRelay.Configuration
