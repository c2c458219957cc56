import CacheService.Cache.Basic
import CacheService.Http.MediaType
import CacheService.Http.Message
import CacheService.Http.Route
import CacheService.Http.WriteRequest
import CacheService.Moment
import CacheService.ServerConfig

/-!
# CacheService.Http.Service

The service that clients of a cache talk to over HTTP (`respond`). Each request has an
id, which is the diagnostic context of everything done for it; each response may be
read by pages of any origin. Whatever a write fails on, it leaves the cache as it was.

`dispatch` finds the `Route` of a request and answers where there is none, or none for
the method; `serve` does what the route says. A write passes three gates: its media type
and size (`Request.write`), its form (`WriteRequest.ofBody`), and its key and lifetime
(`WriteRequest.check`).
-/

namespace CacheService.Http

/-- The cache that a configuration describes. -/
def cacheOf (properties : Properties) (cleanupInterval : UInt64) : Except CacheError Cache := do
  let config ← BackendConfig.ofProperties properties
  pure { Cache.create config with cleanupInterval := .ofSeconds cleanupInterval }

/-! ## Bodies -/

/-- The largest body that is read, in bytes. -/
def maxBodySize : Nat := 2097152

/-- Why the body of a request is not taken. -/
inductive BodyFault
  /-- Its media type is not JSON. -/
  | wrongType
  | tooLarge
  | unreadable (fault : Json.ReadFault)
  deriving DecidableEq, Repr

/-- The response to a body that is not taken. -/
def BodyFault.response : BodyFault → Response
  | .wrongType =>
    .text .unsupportedMediaType "Expected request with \x60Content-Type: application/json\x60"
  | .tooLarge => .text .bodyTooLarge "Failed to buffer the request body: length limit exceeded"
  | .unreadable .malformed => .text .badRequest "Failed to parse the request body as JSON"
  | .unreadable .mismatch =>
    .text .unprocessable "Failed to deserialize the JSON body into the target type"

/-- Whether a request says that its body is JSON. -/
def Request.hasJson (r : Request) : Bool :=
  match r.header? "content-type" with
  | some text => MediaType.isJson text
  | none => false

/-- The write that a request asks for. -/
def Request.write (r : Request) : Except BodyFault WriteRequest :=
  if !r.hasJson then .error .wrongType
  else if maxBodySize < r.body.size then .error .tooLarge
  else
    match WriteRequest.ofBody r.body with
    | .ok write => .ok write
    | .error fault => .error (.unreadable fault)

/-! ## Answers -/

/-- The answer to a write. -/
def writtenBody (key : String) (ttl : UInt32) : Json :=
  .members [("message", .string ("Key '" ++ key ++ "' set successfully")), ("key", .string key),
    ("ttl", .int ttl.toNat)]

/-- The answer to a read. -/
def foundBody (key : String) (value : Json) : Json :=
  .members [("key", .string key), ("value", value)]

/-- The answer to a removal. -/
def removedBody (key : String) : Json :=
  .members [("message", .string ("Key '" ++ key ++ "' deleted successfully")), ("key", .string key)]

/-- The answer to the removal of everything. -/
def clearedBody : Json := .members [("message", .string "Cache cleared")]

/-- How the cache is at a moment: it is well until it has been stopped. -/
def healthBody (c : Cache) (unixMillis : Int) : Json :=
  let status := match c.state with
    | .stopped => "stopped"
    | _ => "healthy"
  .members [("status", .string status), ("backend", .string c.backendName),
    ("state", .string c.stateName), ("timestamp", .string (Moment.text unixMillis))]

/-! ## Handling -/

variable {σ : Type} [Remote.Network σ]

/-- Values are kept as JSON texts. -/
def codec : Codec Datum := .json .json

/-- Carries out a write, if it may be carried out (`WriteRequest.check`). -/
def putEntry (c : Cache) (w : World σ) (r : WriteRequest) : Response × Cache × World σ :=
  match r.check with
  | .error e => (.ofError e, c, w)
  | .ok ttl =>
    match c.set w codec r.key (.json r.value) ttl with
    | (.error e, c, w) => (.ofError e, c, w)
    | (.ok (), c, w) => (.json .ok (writtenBody r.key ttl), c, w)

/-- Carries out the write that a request asks for. -/
def put (c : Cache) (w : World σ) (r : Request) : Response × Cache × World σ :=
  match r.write with
  | .error fault => (fault.response, c, w)
  | .ok write => putEntry c w write

/-- Reads the value under a key. -/
def getEntry (c : Cache) (w : World σ) (d : Diagnostics) (key : String) :
    Response × Cache × World σ :=
  match c.get w d codec key with
  | (some (.json value), c, w) => (.json .ok (foundBody key value), c, w)
  | (_, c, w) => (.ofError (.notFound key), c, w)

/-- Removes a key. -/
def deleteEntry (c : Cache) (w : World σ) (key : String) : Response × Cache × World σ :=
  match c.delete w key with
  | (.ok (), c, w) => (.json .ok (removedBody key), c, w)
  | (.error e, c, w) => (.ofError e, c, w)

/-- Removes everything. -/
def clearEntries (c : Cache) (w : World σ) : Response × Cache × World σ :=
  match c.clear w with
  | (.ok (), c, w) => (.json .ok clearedBody, c, w)
  | (.error e, c, w) => (.ofError e, c, w)

/-- Does something with the key that a segment of a path stands for. -/
def withKey (segment : List Char) (c : Cache) (w : World σ)
    (f : String → Response × Cache × World σ) : Response × Cache × World σ :=
  match segmentText? segment with
  | some key => f key
  | none => (.text .badRequest "Invalid URL: Invalid UTF-8 in \x60key\x60", c, w)

/-- Handles a request that its route takes. -/
def serve (c : Cache) (w : World σ) (d : Diagnostics) (r : Request) :
    Route → Response × Cache × World σ
  | .entries => put c w r
  | .entry segment => withKey segment c w (getEntry c w d ·)
  | .removal segment => withKey segment c w (deleteEntry c w ·)
  | .everything => clearEntries c w
  | .stats => (.json .ok ((c.stats.getD (.zero c.backendName)).toJson), c, w)
  | .health => (.json .ok (healthBody c w.clock), c, w)

/-- Finds the route of a request and handles it, if there is one that takes the
method. -/
def dispatch (c : Cache) (w : World σ) (d : Diagnostics) (r : Request) :
    Response × Cache × World σ :=
  match route? (pathOf r.target.toList) with
  | none => (.empty .notFound, c, w)
  | some route =>
    if r.method ∈ route.methods then serve c w d r route
    else ((Response.empty .methodNotAllowed).withHeader "allow" route.allow, c, w)

/-! ## Every request -/

def requestIdHeader : String := "x-request-id"

/-- The name of the request's id in the diagnostic context. -/
def requestIdName : String := "requestId"

/-- The id of a request: the one it brings, else a fresh one. -/
def Request.id (r : Request) (fresh : String) : String :=
  match r.header? requestIdHeader with
  | some id => if id.isEmpty then fresh else id
  | none => fresh

/-- Lets pages of any origin read a response. -/
def Response.forAnyOrigin (r : Response) : Response :=
  r.withHeader "access-control-allow-origin" "*"

/-- The answer to the question what a route allows, which no cache is asked. -/
def optionsResponse (r : Request) : Response :=
  let response :=
    ((Response.empty .ok).forAnyOrigin.withHeader "access-control-allow-methods" "*").withHeader
      "access-control-allow-headers" "*"
  match route? (pathOf r.target.toList) with
  | some route => response.withHeader "allow" route.allow
  | none => response

/-- Answers a request, whose id is `fresh` unless it brings one. -/
def respond (c : Cache) (w : World σ) (fresh : String) (r : Request) : Response × Cache × World σ :=
  if r.method = "OPTIONS" then (optionsResponse r, c, w)
  else
    let id := r.id fresh
    let (response, c, w) := dispatch c w (Diagnostics.none.enter [(requestIdName, id)]) r
    let response := if r.method = "HEAD" then response.withoutBody else response
    ((response.withHeader requestIdHeader id).forAnyOrigin, c, w)

end CacheService.Http
