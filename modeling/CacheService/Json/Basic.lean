import CacheService.Decimal.Binary64

/-!
# CacheService.Json.Basic

JSON values. A number is an integer of up to 64 bits or a floating-point
number. The members of an object are kept in the order in which they are
written; `Json.object` puts them in ascending order of their keys.
-/

namespace CacheService

/-- A JSON number. -/
inductive JsonNumber
  /-- From -2^63 up to 2^64 - 1. -/
  | integer (n : Int)
  | float (x : Decimal.Binary64)
  deriving DecidableEq, Repr

/-- A JSON value. -/
inductive Json
  | null
  | bool (b : Bool)
  | number (n : JsonNumber)
  | string (s : String)
  | array (items : List Json)
  | members (fields : List (String × Json))

namespace Json

/-- An integer. -/
def int (n : Int) : Json := .number (.integer n)

/-- A floating-point number; one that is not finite has no JSON form but null. -/
def float (x : Decimal.Binary64) : Json := if x.isFinite then .number (.float x) else .null

/-- Puts a member in its place among members in ascending order, over any that
has its key. -/
def insertMember (key : String) (value : Json) : List (String × Json) → List (String × Json)
  | [] => [(key, value)]
  | (k, v) :: rest =>
    match compare key k with
    | .lt => (key, value) :: (k, v) :: rest
    | .eq => (key, value) :: rest
    | .gt => (k, v) :: insertMember key value rest

/-- The object of some members; of several with one key the last counts. -/
def object (fields : List (String × Json)) : Json :=
  .members (fields.foldl (fun sorted kv => insertMember kv.1 kv.2 sorted) [])

end Json

end CacheService
