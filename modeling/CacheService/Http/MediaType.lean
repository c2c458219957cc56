/-!
# CacheService.Http.MediaType

Which media types say that a body is JSON: `application/json`, and every
application type with the suffix `+json`. The parameters behind a type are of
no account, but they have to be well-formed.
-/

namespace CacheService.Http.MediaType

/-- A character of a token. -/
def isTokenChar (c : Char) : Bool := c.isAlphanum || "!#$%&'*+-.^_\x60|~".toList.contains c

/-! ## Parameters -/

/-- Where the parameters stand between two characters. -/
inductive ParamState
  /-- Before a name; spaces are passed over. -/
  | start
  | name
  /-- Behind the equals sign. -/
  | valueStart
  | value
  /-- Behind an opening quote. -/
  | quoteStart
  | quoted
  /-- Behind a closing quote. -/
  | closed
  deriving DecidableEq, Repr

/-- One character further, unless it is refused there. The first character
between quotes may be any, even a quote. -/
def ParamState.step (c : Char) : ParamState → Option ParamState
  | .start => if c = ' ' then some .start else if isTokenChar c then some .name else none
  | .name => if c = '=' then some .valueStart else if isTokenChar c then some .name else none
  | .valueStart =>
    if c = '"' then some .quoteStart else if isTokenChar c then some .value else none
  | .value => if c = ';' then some .start else if isTokenChar c then some .value else none
  | .quoteStart => if c < ' ' then none else some .quoted
  | .quoted => if c = '"' then some .closed else if c < ' ' then none else some .quoted
  | .closed => if c = ';' then some .start else if c = ' ' then some .closed else none

/-- Whether the parameters may end here. -/
def ParamState.isFinal : ParamState → Bool
  | .start | .valueStart | .value | .closed => true
  | .name | .quoteStart | .quoted => false

/-- Whether the text behind the semicolon is well-formed. -/
def parametersOk (cs : List Char) : Bool :=
  match cs.foldlM (fun s c => ParamState.step c s) .start with
  | some s => s.isFinal
  | none => false

/-! ## Types -/

/-- The part of a subtype before its last plus sign, and the suffix behind it.
A plus sign in front begins no suffix. -/
def splitSuffix (subtype : List Char) : List Char × Option (List Char) :=
  let suffix := (subtype.reverse.takeWhile (· ≠ '+')).reverse
  let stem := subtype.take (subtype.length - suffix.length - 1)
  if stem.isEmpty then (subtype, none) else (stem, some suffix)

/-- Whether a media type, in lowercase, stands for JSON. -/
def isJsonType (cs : List Char) : Bool :=
  match cs.dropWhile isTokenChar with
  | '/' :: rest =>
    let subtype := rest.takeWhile isTokenChar
    let json := "json".toList
    let ok :=
      match rest.dropWhile isTokenChar with
      | [] => true
      | ';' :: parameters => parametersOk parameters
      | _ => false
    let (stem, suffix) := splitSuffix subtype
    cs.takeWhile isTokenChar = "application".toList && (stem = json || suffix = some json) && ok
  | _ => false

/-- Whether the text of a media type stands for JSON. -/
def isJson (text : String) : Bool := isJsonType (text.toList.map Char.toLower)

end CacheService.Http.MediaType
