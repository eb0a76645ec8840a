import FlowEngine.Decimal.Reader
import FlowEngine.Failure
import FlowEngine.Toml.Reader

/-!
# Configuration

Settings of the engine, of HTTP requests, of the voice service and of logging. They come from a file,
which may leave out any of them, and from environment variables, which go first.
-/
namespace FlowEngine

structure EngineConfig where
  /-- Limit of a run in seconds where the workflow sets none; zero sets none. -/
  executionTimeoutSeconds : Nat
  /-- How many nodes a run may activate. -/
  maxActivations : Nat
  /-- Milliseconds between two tries where the node sets none. -/
  defaultRetryWaitMs : Nat
deriving DecidableEq, Repr

structure HttpConfig where
  timeoutSeconds : Nat
  /-- Requests to the machine itself and to private networks are let through. -/
  allowInternalUrls : Bool
deriving DecidableEq, Repr

structure VoiceConfig where
  /-- Where the voice service is; without it there is none. -/
  endpoint : Option String
  /-- The environment variable with the key of the service. -/
  apiKeyEnv : String
  /-- Seconds between two questions about a call. -/
  pollIntervalSeconds : Nat
  /-- How many seconds a node waits for the end of a call. -/
  maxWaitSeconds : Nat
deriving DecidableEq, Repr

structure LoggingConfig where
  level : String
  json : Bool
deriving DecidableEq, Repr

structure Config where
  engine : EngineConfig
  http : HttpConfig
  voice : VoiceConfig
  logging : LoggingConfig
deriving DecidableEq, Repr

namespace EngineConfig

def default : EngineConfig := ⟨3600, 10000, 1000⟩

def toJson (config : EngineConfig) : Json :=
  .mk [("execution_timeout_seconds", .ofNat config.executionTimeoutSeconds),
    ("max_activations", .ofNat config.maxActivations),
    ("default_retry_wait_ms", .ofNat config.defaultRetryWaitMs)]

def ofJson? (value : Json) : Option EngineConfig := do
  let fields ← value.record? ["execution_timeout_seconds", "max_activations", "default_retry_wait_ms"]
  return {
    executionTimeoutSeconds := ←
      fields.withDefault Json.nat? default.executionTimeoutSeconds "execution_timeout_seconds"
    maxActivations := ← fields.withDefault Json.nat? default.maxActivations "max_activations"
    defaultRetryWaitMs := ←
      fields.withDefault Json.nat? default.defaultRetryWaitMs "default_retry_wait_ms" }

end EngineConfig

namespace HttpConfig

def default : HttpConfig := ⟨30, false⟩

def toJson (config : HttpConfig) : Json :=
  .mk [("timeout_seconds", .ofNat config.timeoutSeconds),
    ("allow_internal_urls", .bool config.allowInternalUrls)]

def ofJson? (value : Json) : Option HttpConfig := do
  let fields ← value.record? ["timeout_seconds", "allow_internal_urls"]
  return {
    timeoutSeconds := ← fields.withDefault Json.nat? default.timeoutSeconds "timeout_seconds"
    allowInternalUrls := ← fields.withDefault Json.bool? false "allow_internal_urls" }

end HttpConfig

namespace VoiceConfig

def default : VoiceConfig := ⟨none, "NODEFLOW_VOICE_API_KEY", 5, 600⟩

def toJson (config : VoiceConfig) : Json :=
  .mk [("endpoint", Json.ofOption .str config.endpoint), ("api_key_env", .str config.apiKeyEnv),
    ("poll_interval_seconds", .ofNat config.pollIntervalSeconds),
    ("max_wait_seconds", .ofNat config.maxWaitSeconds)]

def ofJson? (value : Json) : Option VoiceConfig := do
  let fields ← value.record?
    ["endpoint", "api_key_env", "poll_interval_seconds", "max_wait_seconds"]
  return {
    endpoint := ← fields.optional Json.str? "endpoint"
    apiKeyEnv := ← fields.withDefault Json.str? default.apiKeyEnv "api_key_env"
    pollIntervalSeconds := ←
      fields.withDefault Json.nat? default.pollIntervalSeconds "poll_interval_seconds"
    maxWaitSeconds := ← fields.withDefault Json.nat? default.maxWaitSeconds "max_wait_seconds" }

/-- The key of the service, by what is known about environment variables; a blank one does not count. -/
def apiKey? (config : VoiceConfig) (environment : String → Option String) : Option String :=
  (environment config.apiKeyEnv).filter (fun key => !Text.isAllBlank key)

end VoiceConfig

namespace LoggingConfig

def default : LoggingConfig := ⟨"nodeflow=info", false⟩

def toJson (config : LoggingConfig) : Json :=
  .mk [("level", .str config.level), ("json", .bool config.json)]

def ofJson? (value : Json) : Option LoggingConfig := do
  let fields ← value.record? ["level", "json"]
  return {
    level := ← fields.withDefault Json.str? default.level "level"
    json := ← fields.withDefault Json.bool? false "json" }

end LoggingConfig

namespace Config

def default : Config := ⟨.default, .default, .default, .default⟩

def toJson (config : Config) : Json :=
  .mk [("engine", config.engine.toJson), ("http", config.http.toJson), ("voice", config.voice.toJson),
    ("logging", config.logging.toJson)]

/-- The settings of a table; a part that is not there has its defaults. -/
def ofJson? (value : Json) : Option Config := do
  let fields ← value.record? ["engine", "http", "voice", "logging"]
  return {
    engine := (← fields.optional EngineConfig.ofJson? "engine").getD .default
    http := (← fields.optional HttpConfig.ofJson? "http").getD .default
    voice := (← fields.optional VoiceConfig.ofJson? "voice").getD .default
    logging := (← fields.optional LoggingConfig.ofJson? "logging").getD .default }

def parse (text : String) : Except Failure Config :=
  match (Toml.read? text).bind ofJson? with
  | some config => .ok config
  | none => .error (.config "not a configuration")

def saysYes (text : String) : Bool := text ∈ ["1", "true", "yes"]

/-- The settings with those of environment variables in their place. A number that is none is passed
over. -/
def withEnvironment (config : Config) (environment : String → Option String) : Config :=
  let number (name : String) (old : Nat) : Nat := ((environment name).bind Decimal.natural?).getD old
  let flag (name : String) (old : Bool) : Bool := ((environment name).map saysYes).getD old
  { engine := { config.engine with
      executionTimeoutSeconds :=
        number "NODEFLOW_EXECUTION_TIMEOUT_SECONDS" config.engine.executionTimeoutSeconds
      maxActivations := number "NODEFLOW_MAX_ACTIVATIONS" config.engine.maxActivations }
    http := {
      timeoutSeconds := number "NODEFLOW_HTTP_TIMEOUT_SECONDS" config.http.timeoutSeconds
      allowInternalUrls := flag "NODEFLOW_ALLOW_INTERNAL_URLS" config.http.allowInternalUrls }
    voice := { config.voice with
      endpoint := (environment "NODEFLOW_VOICE_ENDPOINT").or config.voice.endpoint }
    logging := {
      level := (environment "NODEFLOW_LOG_LEVEL").getD config.logging.level
      json := flag "NODEFLOW_LOG_JSON" config.logging.json } }

end Config
end FlowEngine
