import CacheService.Capacity.Basic
import CacheService.Entry
import CacheService.Recency

/-!
# CacheService.Tier

One bounded pool of entries. An entry that does not fit pushes out the least recently
used ones until it does (`Tier.insert`, by `makeRoom`); each entry counts with its
`Entry.footprint`. An entry that could never be held is for the caller to keep out
(`admits`): inserted all the same, it empties the tier and goes in.

The table of entries, the order of use and the sum of the footprints are kept side by
side. No operation checks that they agree; `Tier.Sound`, in `CacheService.Proofs.Tier`,
says that they do, and every operation keeps it.
-/

namespace CacheService

/-- Entries with their order of use and the bytes they take. -/
structure Tier where
  name : String
  capacity : Capacity
  entries : Std.TreeMap String Entry := {}
  recency : Recency := {}
  usedBytes : Nat := 0

namespace Tier

/-- A tier without entries. -/
def empty (name : String) (capacity : Capacity) : Tier := { name, capacity }

/-- Whether an entry of this footprint could ever be held. A bound of zero entries
admits nothing. -/
def admits (t : Tier) (footprint : Nat) : Bool :=
  match t.capacity with
  | .entries max => 0 < max
  | .bytes max => footprint ≤ max.toNat

def get? (t : Tier) (key : String) : Option Entry := t.entries[key]?

def size (t : Tier) : Nat := t.entries.size

def isEmpty (t : Tier) : Bool := t.entries.isEmpty

/-- Marks a stored key as most recently used; other keys change nothing. -/
def touch (t : Tier) (key : String) : Tier :=
  if t.entries.contains key then { t with recency := t.recency.touch key } else t

/-- Puts another deadline on a stored entry. -/
def setDeadline (t : Tier) (key : String) (expiresAt : Option UInt64) : Tier :=
  match t.get? key with
  | none => t
  | some e => { t with entries := t.entries.insert key { e with expiresAt } }

/-- Takes out the entry under a key. -/
def remove (t : Tier) (key : String) : Option (Entry × Tier) :=
  match t.get? key with
  | none => none
  | some e =>
    some (e, { t with
      entries := t.entries.erase key
      usedBytes := t.usedBytes - e.footprint key
      recency := t.recency.erase key })

/-- The tier without the entry under a key. -/
def erase (t : Tier) (key : String) : Tier :=
  match t.remove key with
  | none => t
  | some (_, t) => t

/-- Whether one more entry of this footprint keeps the tier in its bound. A bound in
entries asks for one place, whatever the footprint. -/
def hasRoomFor (t : Tier) (footprint : Nat) : Bool :=
  match t.capacity with
  | .entries max => t.size < max.toNat
  | .bytes max => t.usedBytes + footprint ≤ max.toNat

/-- Takes out the least recently used entry. -/
def evictOldest (t : Tier) : Option (List (String × Entry) × Tier) :=
  match t.recency.evictOldest with
  | none => none
  | some (key, recency) =>
    match t.get? key with
    | none => some ([], { t with recency })
    | some e =>
      some ([(key, e)], { t with
        entries := t.entries.erase key
        usedBytes := t.usedBytes - e.footprint key
        recency })

/-- Takes out least recently used entries, in up to `rounds` rounds, until
there is room for `footprint` or nothing is left to take out. -/
def evictFor (footprint : Nat) : (rounds : Nat) → Tier → List (String × Entry) × Tier
  | 0, t => ([], t)
  | rounds + 1, t =>
    if t.hasRoomFor footprint then ([], t)
    else
      match t.evictOldest with
      | none => ([], t)
      | some (victim, t) =>
        let (victims, t) := evictFor footprint rounds t
        (victim ++ victims, t)

/-- Takes out what stands in the way of `footprint` more bytes, oldest first. -/
def makeRoom (t : Tier) (footprint : Nat) : List (String × Entry) × Tier :=
  evictFor footprint t.recency.size t

/-- Adds an entry under a key that is not stored, as most recently used. -/
def add (t : Tier) (key : String) (e : Entry) : Tier :=
  { t with
    entries := t.entries.insert key e
    usedBytes := t.usedBytes + e.footprint key
    recency := t.recency.touch key }

/-- Stores an entry in place of any under its key, and gives back what was
pushed out for it, oldest first. Whether the tier admits the entry is for the
caller to ask. -/
def insert (t : Tier) (key : String) (e : Entry) : List (String × Entry) × Tier :=
  let (victims, t) := (t.erase key).makeRoom (e.footprint key)
  (victims, t.add key e)

/-- The keys whose entries have expired. -/
def expiredKeys (t : Tier) (now : UInt64) : List String :=
  (t.entries.toList.filter fun kv => kv.2.isExpiredAt now).map (·.1)

/-- Removes every expired entry (`expiredKeys`) and counts them. -/
def removeExpired (t : Tier) (now : UInt64) : Nat × Tier :=
  let keys := t.expiredKeys now
  (keys.length, keys.foldl erase t)

/-- Removes every entry. -/
def clear (t : Tier) : Tier :=
  { t with entries := {}, recency := t.recency.clear, usedBytes := 0 }

end Tier

end CacheService
