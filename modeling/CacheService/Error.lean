import CacheService.Address.Basic
import CacheService.Capacity.Basic
import CacheService.Remote.Answer
import CacheService.Span
import CacheService.Text.Quoted

/-!
# CacheService.Error

Everything that can go wrong, by kind and by cause, and the wording of each cause. The
text of an error is the name of its kind, a colon and the cause (`CacheError.message`).

Most kinds carry a type of causes of their own (`ConfigFault`, `StateFault` and so on),
so that an error says which field, key or address it is about before it says so in words.
-/

namespace CacheService

open Text (quoted)

/-! ## Causes -/

/-- A configuration that is contradictory or cannot be read. -/
inductive ConfigFault
  /-- A line without an equals sign. -/
  | badLine (number : Nat) (line : String)
  /-- A value that does not read as its type. -/
  | badValue (key raw reason : String)
  /-- A value that is no duration. -/
  | badDuration (key raw : String)
  | notPositive (key : String)
  | badAddress (text : String)
  | missingHosts
  | missingPassword
  | heapTwice (wanted present : Capacity)
  | offHeapTwice (wanted present : Capacity)
  | offHeapPresent
  | noSizes
  | noCapacity
  | unknownBackend (name : String)
  | bothBackends
  | other (text : String)
  deriving DecidableEq

def ConfigFault.message : ConfigFault → String
  | .badLine number line => "Line " ++ toString number ++ " is not a key=value pair: " ++ line
  | .badValue key raw reason =>
    "Invalid value for " ++ key ++ ": " ++ quoted raw ++ " (" ++ reason ++ ")"
  | .badDuration key raw => "Invalid value for " ++ key ++ ": " ++ quoted raw
  | .notPositive key => key ++ " must be greater than zero"
  | .badAddress text => "Invalid remote address: " ++ quoted text
  | .missingHosts => "Bad configuration for remote cache: missing host(s)"
  | .missingPassword => "Bad configuration for remote cache: missing password"
  | .heapTwice wanted present =>
    "Can not add heap pool " ++ wanted.text ++ "; configuration already contains heap pool "
      ++ present.text
  | .offHeapTwice wanted present =>
    "Can not add off-heap pool " ++ wanted.text
      ++ "; configuration already contains off-heap pool " ++ present.text
  | .offHeapPresent => "configuration already contains an off-heap pool"
  | .noSizes =>
    "Must specify nonzero cache.heapSizeInMb/cache.heapSizeInEntries or cache.offHeapSizeInMb"
  | .noCapacity => "Must specify nonzero heap or off-heap capacity"
  | .unknownBackend name =>
    "Unknown cache.impl: " ++ quoted name ++ " (expected local, remote or none)"
  | .bothBackends =>
    "Both remote hosts and local sizing are configured; remove either or set cache.impl"
  | .other text => text

/-- A call on something that has been stopped. -/
inductive StateFault
  | cacheStopped
  | localStopped
  | remoteStopped
  /-- A second stop of the remote client. -/
  | remoteStoppedTwice
  | nodeStopped (node : Address)
  | other (text : String)
  deriving DecidableEq

def StateFault.message : StateFault → String
  | .cacheStopped => "cache has been stopped"
  | .localStopped => "local cache has been stopped"
  | .remoteStopped => "remote cache client has been stopped"
  | .remoteStoppedTwice => "remote cache client has already been stopped"
  | .nodeStopped node => "remote cache node " ++ node.text ++ " has been stopped"
  | .other text => text

/-- A value that a codec cannot write, or bytes that it cannot read. -/
inductive CodecFault
  | unencodable
  | undecodable
  | other (text : String)
  deriving DecidableEq

def CodecFault.message : CodecFault → String
  | .unencodable => "value has no encoding"
  | .undecodable => "bytes are not an encoding of the type"
  | .other text => text

/-- A failure of a remote node or of the way to it. -/
inductive RemoteFault
  | unreachable (node : Address) (reason : String)
  | loginRefused (user : String) (node : Address) (fault : Remote.Fault)
  | exchange (fault : Remote.Fault)
  | queueFull (node : Address) (capacity : Nat)
  | workerGone (node : Address)
  | unanswered (node : Address)
  | other (text : String)
  deriving DecidableEq

def RemoteFault.message : RemoteFault → String
  | .unreachable node reason => "could not connect to " ++ node.text ++ ": " ++ reason
  | .loginRefused user node fault =>
    "authentication as " ++ user ++ " refused by " ++ node.text ++ ": " ++ fault.message
  | .exchange fault => fault.message
  | .queueFull node capacity =>
    "queue for " ++ node.text ++ " is full (" ++ toString capacity ++ " operations)"
  | .workerGone node => "worker for " ++ node.text ++ " is gone"
  | .unanswered node => "worker for " ++ node.text ++ " stopped before answering"
  | .other text => text

/-- An answer that did not come in time. -/
inductive TimeoutFault
  | noResponse (node : Address) (limit : Span)
  | other (text : String)
  deriving DecidableEq

def TimeoutFault.message : TimeoutFault → String
  | .noResponse node limit => "no response from " ++ node.text ++ " within " ++ limit.text
  | .other text => text

/-- A request that asks for something it may not. -/
inductive RequestFault
  | badDuration (expression : String)
  /-- A remote key that is empty or too long. -/
  | keyLength (bytes : Nat)
  /-- A remote key with a blank or a control character. -/
  | keyCharacters (key : String)
  | emptyKey
  | longKey
  | blankKey
  | other (text : String)
  deriving DecidableEq

def RequestFault.message : RequestFault → String
  | .badDuration expression => "Invalid duration pattern : " ++ expression
  | .keyLength bytes => "remote cache keys must be 1..=250 bytes, got " ++ toString bytes
  | .keyCharacters key =>
    "remote cache keys must not contain whitespace or control characters: " ++ quoted key
  | .emptyKey => "Key cannot be empty"
  | .longKey => "Key exceeds maximum length of 250 bytes"
  | .blankKey => "Key cannot contain whitespace or control characters"
  | .other text => text

/-! ## Errors -/

/-- An error of the cache. -/
inductive CacheError
  | configuration (fault : ConfigFault)
  | illegalState (fault : StateFault)
  | serialization (fault : CodecFault)
  | remote (fault : RemoteFault)
  | timeout (fault : TimeoutFault)
  | io (text : String)
  | notFound (key : String)
  | invalidRequest (fault : RequestFault)
  | internal (text : String)
  deriving DecidableEq

namespace CacheError

/-- What an error's text begins with. -/
def label : CacheError → String
  | .configuration _ => "Configuration error"
  | .illegalState _ => "Illegal state"
  | .serialization _ => "Serialization error"
  | .remote _ => "Remote error"
  | .timeout _ => "Timeout"
  | .io _ => "I/O error"
  | .notFound _ => "Key not found"
  | .invalidRequest _ => "Invalid request"
  | .internal _ => "Internal error"

/-- The wording of an error's cause. -/
def cause : CacheError → String
  | .configuration fault => fault.message
  | .illegalState fault => fault.message
  | .serialization fault => fault.message
  | .remote fault => fault.message
  | .timeout fault => fault.message
  | .io text => text
  | .notFound key => key
  | .invalidRequest fault => fault.message
  | .internal text => text

/-- The text of an error. -/
def message (e : CacheError) : String := e.label ++ ": " ++ e.cause

/-- An error of a call on something stopped. -/
def isIllegalState : CacheError → Bool
  | .illegalState _ => true
  | _ => false

/-- An answer that did not come in time. -/
def isTimeout : CacheError → Bool
  | .timeout _ => true
  | _ => false

end CacheError

end CacheService
