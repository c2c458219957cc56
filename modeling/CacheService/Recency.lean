import Std.Data.TreeMap

/-!
# CacheService.Recency

The order in which keys were last used. Every use stamps its key with the next tick
(`Recency.touch`); `tickOf` finds the tick of a key, `keyAt` the key of a tick, and the
smallest tick belongs to the least recently used key. Ticks are never given twice:
`clear` forgets the keys, and the ticks go on.

That the two tables are inverse to each other on every run, and that `toList` is then a
plain recency list, is shown in `CacheService.Proofs.Recency`.
-/

namespace CacheService

/-- Keys by last use. -/
structure Recency where
  /-- The last tick of each key. -/
  tickOf : Std.TreeMap String Nat := {}
  /-- The key of each tick in use. -/
  keyAt : Std.TreeMap Nat String := {}
  /-- The tick of the next use. -/
  nextTick : Nat := 0

namespace Recency

/-- No key used yet. -/
def empty : Recency := {}

/-- Marks a key as most recently used, and tracks it if it is new. -/
def touch (r : Recency) (key : String) : Recency :=
  let keyAt :=
    match r.tickOf[key]? with
    | some previous => r.keyAt.erase previous
    | none => r.keyAt
  { tickOf := r.tickOf.insert key r.nextTick
    keyAt := keyAt.insert r.nextTick key
    nextTick := r.nextTick + 1 }

/-- Stops tracking a key; an unknown key changes nothing. -/
def erase (r : Recency) (key : String) : Recency :=
  match r.tickOf[key]? with
  | none => r
  | some tick => { r with tickOf := r.tickOf.erase key, keyAt := r.keyAt.erase tick }

/-- The least recently used key. -/
def oldest? (r : Recency) : Option String :=
  r.keyAt.minEntry?.map (·.2)

/-- Takes out the least recently used key, which is the one under the smallest tick in
`keyAt`. -/
def evictOldest (r : Recency) : Option (String × Recency) :=
  match r.keyAt.minEntry? with
  | none => none
  | some (tick, key) =>
    some (key, { r with tickOf := r.tickOf.erase key, keyAt := r.keyAt.erase tick })

/-- Forgets every key; ticks go on from where they are. -/
def clear (r : Recency) : Recency := { r with tickOf := {}, keyAt := {} }

def size (r : Recency) : Nat := r.tickOf.size

def isEmpty (r : Recency) : Bool := r.tickOf.isEmpty

def contains (r : Recency) (key : String) : Bool := r.tickOf.contains key

/-- The keys from least to most recently used. -/
def toList (r : Recency) : List String := r.keyAt.values

end Recency

end CacheService
