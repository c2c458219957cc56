import CacheService.Address.Parse
import CacheService.Capacity.Plan
import CacheService.Duration

/-!
# CacheService.Settings

What the configuration resolves to: the login (`Credentials`) and the settings of the
remote client (`RemoteSettings`), and the choice of the backend with its validated
settings (`BackendConfig`).

Each setting is read by a function of its own, and `RemoteSettings.ofProperties` reads
them one after another: nodes, time limit, queue size, login. The first that fails is
the error. `BackendConfig.ofProperties` goes by the name under `cache.impl` if there is
one and does not look at the other backend's keys then; without a name, the keys that
are present decide.
-/

namespace CacheService

open Text (quoted trim)

/-! ## Login -/

/-- The login for servers that ask for one. -/
structure Credentials where
  user : String
  password : String
  deriving DecidableEq

namespace Credentials

def userKey : String := "cache.remote.user"
def passwordKey : String := "cache.remote.password"

/-- A user turns the login on and then needs a password. The user is trimmed and the
password is not. -/
def ofProperties (p : Properties) : Except CacheError (Option Credentials) :=
  match p.get? userKey with
  | none => .ok none
  | some user =>
    match p.get? passwordKey with
    | some password => .ok (some ⟨trim user, password⟩)
    | none => .error (.configuration .missingPassword)

/-- A text that hides the password. -/
def text (c : Credentials) : String :=
  "Credentials \x7b user: " ++ quoted c.user ++ ", password: \"***\" \x7d"

end Credentials

/-! ## Remote client -/

/-- The settings of the remote client. -/
structure RemoteSettings where
  /-- The nodes in the order of the configuration. -/
  nodes : List Address
  /-- The bound of one exchange, and of one connection attempt. -/
  timeout : Span
  /-- The operations that may wait for each node. -/
  queueCapacity : Nat
  credentials : Option Credentials
  /-- The diagnostic field that is copied onto a decode span. -/
  mdcParameter : Option String
  deriving DecidableEq

namespace RemoteSettings

def timeoutKey : String := "cache.remote.timeout"
def queueSizeKey : String := "cache.remote.queueSize"
def mdcParameterKey : String := "cache.remote.mdc.parameter"

def defaultTimeout : Span := .ofSeconds 1
def defaultQueueCapacity : Nat := 1024

/-- The default settings for some nodes. -/
def ofNodes (nodes : List Address) : RemoteSettings :=
  ⟨nodes, defaultTimeout, defaultQueueCapacity, none, none⟩

/-- The time limit of a configuration, which is not zero. -/
def timeoutOf (p : Properties) : Except CacheError Span := do
  let timeout ←
    match p.get? timeoutKey with
    | none => pure defaultTimeout
    | some raw =>
      match Duration.parse raw with
      | .ok seconds => pure (Span.ofSeconds seconds.toUInt64)
      | .error _ => .error (.configuration (.badDuration timeoutKey raw))
  if timeout.isZero then .error (.configuration (.notPositive timeoutKey)) else pure timeout

/-- The queue size of a configuration, which is not zero. -/
def queueCapacityOf (p : Properties) : Except CacheError Nat := do
  let size ← p.getParsed queueSizeKey defaultQueueCapacity (Text.readNat (UInt64.size - 1))
    Text.IntegerFault.message
  if size = 0 then .error (.configuration (.notPositive queueSizeKey)) else pure size

/-- The diagnostic field of a configuration, unless it is blank. -/
def mdcParameterOf (p : Properties) : Option String :=
  ((p.get? mdcParameterKey).map trim).filter (· ≠ "")

/-- The settings of a configuration. -/
def ofProperties (p : Properties) : Except CacheError RemoteSettings := do
  let nodes ← Address.ofProperties p
  let timeout ← timeoutOf p
  let queueCapacity ← queueCapacityOf p
  let credentials ← Credentials.ofProperties p
  pure ⟨nodes, timeout, queueCapacity, credentials, mdcParameterOf p⟩

/-- The text of an optional part. -/
def optionText : Option String → String
  | none => "None"
  | some text => "Some(" ++ text ++ ")"

def nodeText (a : Address) : String :=
  "NodeAddress \x7b host: " ++ quoted a.host ++ ", port: " ++ toString a.port ++ " \x7d"

/-- All settings in one line, the password hidden. -/
def text (s : RemoteSettings) : String :=
  "RemoteSettings \x7b nodes: [" ++ ", ".intercalate (s.nodes.map nodeText)
    ++ "], op_timeout: " ++ s.timeout.text
    ++ ", queue_capacity: " ++ toString s.queueCapacity
    ++ ", credentials: " ++ optionText (s.credentials.map Credentials.text)
    ++ ", mdc_parameter: " ++ optionText (s.mdcParameter.map quoted) ++ " \x7d"

end RemoteSettings

/-! ## Backend -/

/-- Which backend the cache runs on, with its validated settings. -/
inductive BackendConfig
  | localTiers (plan : CapacityPlan)
  | remote (settings : RemoteSettings)
  /-- No caching: every read misses. -/
  | disabled
  deriving DecidableEq

namespace BackendConfig

def implKey : String := "cache.impl"

/-- The backend's short name. -/
def name : BackendConfig → String
  | .localTiers _ => "local"
  | .remote _ => "remote"
  | .disabled => "none"

def localOf (p : Properties) : Except CacheError BackendConfig :=
  (CapacityPlan.ofProperties p).map .localTiers

def remoteOf (p : Properties) : Except CacheError BackendConfig :=
  (RemoteSettings.ofProperties p).map .remote

/-- The backend of a configuration: the one that is named, else the one whose
keys are present; keys of both are an error. -/
def ofProperties (p : Properties) : Except CacheError BackendConfig :=
  match (p.get? implKey).map trim with
  | some name =>
    if name = "local" then localOf p
    else if name = "remote" then remoteOf p
    else if name = "none" then .ok .disabled
    else .error (.configuration (.unknownBackend name))
  | none =>
    match Address.hasHosts p, CapacityPlan.hasSizing p with
    | true, true => .error (.configuration .bothBackends)
    | true, false => remoteOf p
    | false, true => localOf p
    | false, false => .ok .disabled

end BackendConfig

end CacheService
