import CacheService.Json.Basic

/-!
# CacheService.Schema.Basic

Types of the values that callers store, and the values. A schema drives both
codecs: nothing in the written form of a value needs to say what type it has.
-/

namespace CacheService

/-- A type of stored values. -/
inductive Schema
  /-- Natural numbers of so many bytes. -/
  | natural (bytes : Nat)
  /-- Integers of so many bytes in two's complement. -/
  | integer (bytes : Nat)
  | bool
  | char
  | string
  /-- The type of one value. -/
  | unit
  | float
  /-- Any JSON value. -/
  | json
  | option (item : Schema)
  | list (item : Schema)
  /-- Values by text, in ascending order of the keys. -/
  | dictionary (value : Schema)
  /-- Values by any key, in ascending order of the keys. -/
  | table (key value : Schema)
  | tuple (items : List Schema)
  | record (fields : List (String × Schema))
  /-- One of several named cases; a case without content holds `unit`. -/
  | choice (cases : List (String × Schema))

/-- A value of some schema. -/
inductive Datum
  | int (n : Int)
  | bool (b : Bool)
  | char (c : Char)
  | string (s : String)
  | unit
  | float (x : Decimal.Binary64)
  | json (j : Json)
  | none
  | some (value : Datum)
  /-- The items of a list or a tuple, or the fields of a record in their order. -/
  | items (values : List Datum)
  | dictionary (entries : List (String × Datum))
  | table (entries : List (Datum × Datum))
  /-- A case by its position. -/
  | choice (index : Nat) (content : Datum)

namespace Schema

/-- The least integer of so many bytes. -/
def leastInteger (bytes : Nat) : Int := -(Nat.pow 2 (8 * bytes - 1) : Nat)

/-- The greatest integer of so many bytes. -/
def greatestInteger (bytes : Nat) : Int := (Nat.pow 2 (8 * bytes - 1) : Nat) - 1

/-- Whether a whole number belongs to the type of natural numbers. -/
def fitsNatural (bytes : Nat) (n : Int) : Bool := 0 ≤ n && n < (Nat.pow 2 (8 * bytes) : Nat)

/-- Whether a whole number belongs to the type of integers. -/
def fitsInteger (bytes : Nat) (n : Int) : Bool :=
  leastInteger bytes ≤ n && n ≤ greatestInteger bytes

end Schema

namespace Datum

/-- The order of keys of a table: numbers by size, lists item by item. -/
def compareKeys : Datum → Datum → Ordering
  | .int a, .int b => compare a b
  | .string a, .string b => compare a b
  | .items as, .items bs => compareItems as bs
  | _, _ => .eq
where
  compareItems : List Datum → List Datum → Ordering
    | [], [] => .eq
    | [], _ :: _ => .lt
    | _ :: _, [] => .gt
    | a :: as, b :: bs =>
      match compareKeys a b with
      | .eq => compareItems as bs
      | o => o

/-- Puts an entry in its place among entries in ascending order, over any that
has its key. -/
def insertEntry {κ α : Type} (cmp : κ → κ → Ordering) (key : κ) (value : α) :
    List (κ × α) → List (κ × α)
  | [] => [(key, value)]
  | (k, v) :: rest =>
    match cmp key k with
    | .lt => (key, value) :: (k, v) :: rest
    | .eq => (key, value) :: rest
    | .gt => (k, v) :: insertEntry cmp key value rest

/-- Entries in ascending order; of several with one key the last counts. -/
def sortEntries {κ α : Type} (cmp : κ → κ → Ordering) (entries : List (κ × α)) : List (κ × α) :=
  entries.foldl (fun sorted kv => insertEntry cmp kv.1 kv.2 sorted) []

end Datum

end CacheService
