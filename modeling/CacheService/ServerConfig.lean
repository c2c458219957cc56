import CacheService.Settings

/-!
# CacheService.ServerConfig

The configuration of a server: the port and the sweep interval from the
environment, the cache's properties from a file that may be missing.
-/

namespace CacheService

/-- What is found under the path of the configuration file. -/
inductive ConfigFile
  | missing
  | directory
  | contents (bytes : ByteArray)

/-- The environment a server starts in. -/
structure Environment where
  file : ConfigFile
  port : Option String
  cleanupInterval : Option String

/-- The configuration of a server. -/
structure ServerConfig where
  properties : Properties
  port : UInt16
  /-- Seconds between two sweeps, 0 for none. -/
  cleanupInterval : UInt64

namespace ServerConfig

def defaultPort : UInt16 := 3000
def defaultCleanupInterval : UInt64 := 1

/-- The properties in a file; no file is an empty configuration. -/
def load : ConfigFile → Except CacheError Properties
  | .missing => .ok .empty
  | .directory => .error (.io "Is a directory (os error 21)")
  | .contents bytes =>
    match String.fromUTF8? bytes with
    | some text => Properties.parse text
    | none => .error (.io "stream did not contain valid UTF-8")

/-- A number of the environment; one that is missing or does not read gives
the default. -/
def numberOr (default max : Nat) (raw : Option String) : Nat :=
  match raw with
  | none => default
  | some raw =>
    match Text.readNat max raw with
    | .ok n => n
    | .error _ => default

/-- The configuration that an environment gives. -/
def ofEnvironment (env : Environment) : Except CacheError ServerConfig := do
  let properties ← load env.file
  pure
    { properties
      port := UInt16.ofNat (numberOr defaultPort.toNat (UInt16.size - 1) env.port)
      cleanupInterval :=
        UInt64.ofNat (numberOr defaultCleanupInterval.toNat (UInt64.size - 1) env.cleanupInterval) }

end ServerConfig

end CacheService
