import CacheService.Error
import CacheService.Json.Printer

/-!
# CacheService.Http.Message

Requests and responses, and the response that each error of the cache gives
(`Response.ofError`). The status goes by the kind of the error alone (`statusOf`), the
body by its text.
-/

namespace CacheService.Http

/-! ## Requests -/

/-- A request. -/
structure Request where
  method : String
  target : String
  /-- Names and values; names are the same in upper and lower case. -/
  headers : List (String × String) := []
  body : ByteArray := .empty

/-- A character that the text of a header may hold: visible ASCII, a space or
a tab. -/
def isHeaderChar (c : Char) : Bool := (0x20 ≤ c.toNat && c.toNat < 0x7F) || c == '\t'

/-- The text of the first header of a name, given in lowercase, if there is one
and it is a text. -/
def Request.header? (r : Request) (name : String) : Option String :=
  match r.headers.find? (·.1.toLower = name) with
  | some (_, value) => if value.toList.all isHeaderChar then some value else none
  | none => none

/-! ## Responses -/

/-- How a request went. -/
inductive Status
  | ok
  | badRequest
  | notFound
  | methodNotAllowed
  | bodyTooLarge
  | unsupportedMediaType
  | unprocessable
  | serverError
  | badGateway
  | unavailable
  | gatewayTimeout
  deriving DecidableEq, Repr

/-- The number of a status. -/
def Status.code : Status → Nat
  | .ok => 200
  | .badRequest => 400
  | .notFound => 404
  | .methodNotAllowed => 405
  | .bodyTooLarge => 413
  | .unsupportedMediaType => 415
  | .unprocessable => 422
  | .serverError => 500
  | .badGateway => 502
  | .unavailable => 503
  | .gatewayTimeout => 504

/-- A response; the names of headers are in lowercase. -/
structure Response where
  status : Status
  headers : List (String × String) := []
  body : String := ""
  deriving DecidableEq, Repr

namespace Response

/-- A response with a JSON body. -/
def json (status : Status) (value : Json) : Response :=
  { status, headers := [("content-type", "application/json")], body := value.text }

/-- A response with a text as its body. -/
def text (status : Status) (body : String) : Response :=
  { status, headers := [("content-type", "text/plain; charset=utf-8")], body }

/-- A response without a body. -/
def empty (status : Status) : Response := { status }

/-- The response with one more header. -/
def withHeader (r : Response) (name value : String) : Response :=
  { r with headers := r.headers ++ [(name, value)] }

/-- The response with its headers only. -/
def withoutBody (r : Response) : Response := { r with body := "" }

end Response

/-! ## Errors -/

/-- The status of a kind of error. -/
def statusOf : CacheError → Status
  | .notFound _ => .notFound
  | .invalidRequest _ => .badRequest
  | .illegalState _ => .unavailable
  | .serialization _ => .unprocessable
  | .remote _ | .io _ => .badGateway
  | .timeout _ => .gatewayTimeout
  | .configuration _ | .internal _ => .serverError

/-- The response that an error gives. -/
def Response.ofError (e : CacheError) : Response :=
  .json (statusOf e) (.members [("error", .string e.message)])

end CacheService.Http
