import CacheService.Error
import CacheService.Text.Blank
import CacheService.Text.Integer
import Std.Data.TreeMap

/-!
# CacheService.Properties

Flat `key=value` configuration. A text has one pair a line; blank lines and lines that
begin with `#` or `!` say nothing (`Line.read`), and of several lines with one key the
last wins (`readLines`). Keys are listed in ascending order.

A text is cut into lines as `lines` says: at line feeds, each with at most one carriage
return before it that goes with it. The first line without an equals sign is the error,
with its number counted from 1. Typed values are read by `getParsed`, which has a
default for a key that is missing and none for a value that does not read.
-/

namespace CacheService

/-- Values by key. -/
structure Properties where
  values : Std.TreeMap String String := {}

namespace Properties

open Text (trimList isBlank splitList)

/-! ## Access -/

def empty : Properties := {}

def insert (p : Properties) (key value : String) : Properties := ⟨p.values.insert key value⟩

def erase (p : Properties) (key : String) : Properties := ⟨p.values.erase key⟩

def get? (p : Properties) (key : String) : Option String := p.values[key]?

def contains (p : Properties) (key : String) : Bool := (p.get? key).isSome

/-- The keys in ascending order. -/
def keys (p : Properties) : List String := p.values.keys

/-- The pairs in ascending order of their keys. -/
def toList (p : Properties) : List (String × String) := p.values.toList

/-- The pairs set one after another. -/
def ofList (pairs : List (String × String)) : Properties :=
  pairs.foldl (fun p kv => p.insert kv.1 kv.2) empty

theorem get?_insert (p : Properties) (k v j : String) :
    (p.insert k v).get? j = if k = j then some v else p.get? j := by
  simp [insert, get?, Std.TreeMap.getElem?_insert]

@[simp] theorem get?_empty (j : String) : empty.get? j = none := by
  simp [empty, get?]

/-! ## Reading a text -/

/-- The lines of a text: pieces between line feeds, without the one empty
piece behind a final line feed, and each without a carriage return at its end
that a line feed follows. -/
def lines (cs : List Char) : List (List Char) :=
  match splitList (· == '\n') cs with
  | [] => []
  | first :: rest => go first rest
where
  /-- A piece that another follows ended in a line feed. -/
  go (piece : List Char) : List (List Char) → List (List Char)
    | [] => if piece.isEmpty then [] else [piece]
    | next :: rest => chomp piece :: go next rest
  /-- The piece without a carriage return at its end. -/
  chomp (piece : List Char) : List Char :=
    if piece.getLast? = some '\r' then piece.dropLast else piece

/-- What one line says. -/
inductive Line
  | silent
  | pair (key value : String)
  /-- A line without an equals sign, trimmed. -/
  | bad (content : String)
  deriving DecidableEq, Repr

/-- Reads one line: the key stands before the first equals sign and the value
behind it, both trimmed. -/
def Line.read (cs : List Char) : Line :=
  match trimList isBlank cs with
  | [] => .silent
  | '#' :: _ | '!' :: _ => .silent
  | content =>
    let key := content.takeWhile (· != '=')
    match content.dropWhile (· != '=') with
    | [] => .bad (String.ofList content)
    | _ :: value =>
      .pair (String.ofList (trimList isBlank key)) (String.ofList (trimList isBlank value))

/-- Adds the pairs of the lines, of which the first has the given number. -/
def readLines (number : Nat) (p : Properties) : List (List Char) → Except CacheError Properties
  | [] => .ok p
  | line :: rest =>
    match Line.read line with
    | .silent => readLines (number + 1) p rest
    | .pair key value => readLines (number + 1) (p.insert key value) rest
    | .bad content => .error (.configuration (.badLine number content))

/-- Reads a text: the pairs of its `lines`, numbered from 1. -/
def parse (text : String) : Except CacheError Properties :=
  readLines 1 empty (lines text.toList)

/-! ## Typed values -/

/-- The value of `key` read by `read`, whose failure is worded by `reason`; a
missing key has the default value. -/
def getParsed {α ε : Type} (p : Properties) (key : String) (default : α)
    (read : String → Except ε α) (reason : ε → String) : Except CacheError α :=
  match p.get? key with
  | none => .ok default
  | some raw =>
    match read raw with
    | .ok value => .ok value
    | .error e => .error (.configuration (.badValue key raw (reason e)))

/-- A 64-bit size, 0 if the key is missing. -/
def getSize (p : Properties) (key : String) : Except CacheError UInt64 :=
  p.getParsed key 0 (fun s => (Text.readNat (UInt64.size - 1) s).map UInt64.ofNat)
    Text.IntegerFault.message

end Properties

end CacheService
