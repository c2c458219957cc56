import CacheService.Http.Service

/-!
# CacheService.Main

The command line. It takes the configuration from the environment as a server
does when it starts, and says what the configuration comes to, or what would
keep a server from starting with it.
-/

namespace CacheService

/-! ## Starting -/

/-- What keeps a server from starting: a stage of the start, and its error. -/
structure StartFault where
  stage : String
  error : CacheError

def StartFault.message (fault : StartFault) : String :=
  "Error: " ++ fault.stage ++ "\n\nCaused by:\n    " ++ fault.error.message

/-- The configuration of a server that starts, with the cache that it serves. -/
def start (env : Environment) : Except StartFault (ServerConfig × Cache) := do
  let config ← (ServerConfig.ofEnvironment env).mapError (⟨"failed to load configuration", ·⟩)
  let cache ← (Http.cacheOf config.properties config.cleanupInterval).mapError
    (⟨"invalid cache configuration", ·⟩)
  discard ((Backend.ofConfig cache.config).mapError (⟨"failed to start the cache", ·⟩))
  pure (config, cache)

/-- What a configuration comes to, in a line. -/
def startText (config : ServerConfig) (cache : Cache) : String :=
  "Configuration loaded: port=" ++ toString config.port.toNat ++ ", cleanup_interval="
    ++ toString config.cleanupInterval.toNat ++ "s, cache_keys="
    ++ toString config.properties.keys.length ++ ", backend=" ++ cache.backendName

/-! ## The environment -/

/-- Where the configuration file is unless the environment says so. -/
def defaultConfigPath : String := "conf/application.conf"

/-- The system's number for reading a directory as a file. -/
def directoryErrorCode : UInt32 := 21

/-- What is found under a path. -/
def readConfigFile (path : String) : IO ConfigFile := do
  try
    pure (.contents (← IO.FS.readBinFile path))
  catch e =>
    match e with
    | .noFileOrDirectory .. => pure .missing
    | .inappropriateType _ code _ =>
      pure (if code = directoryErrorCode then .directory else .missing)
    | e => throw e

/-- The environment of this process. -/
def readEnvironment : IO Environment := do
  pure
    { file := ← readConfigFile ((← IO.getEnv "REPLAY_CONFIG").getD defaultConfigPath)
      port := ← IO.getEnv "SERVER_PORT"
      cleanupInterval := ← IO.getEnv "CLEANUP_INTERVAL" }

end CacheService

/-- Tells what the configuration of this process comes to. -/
def main : IO UInt32 := do
  match CacheService.start (← CacheService.readEnvironment) with
  | .ok (config, cache) =>
    IO.println (CacheService.startText config cache)
    pure 0
  | .error fault =>
    IO.eprintln fault.message
    pure 1
