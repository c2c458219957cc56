import CacheService.Tier

/-!
# CacheService.Store

The two-tier store: a heap tier in front of an off-heap tier, either of which may be
missing. Four counters keep the books of reads and losses (`Tally`).

A new entry goes to the heap tier (`Store.place`). What the heap tier pushes out for it
moves to the off-heap tier (`Store.demote`), and what that pushes out is lost and
counted as an eviction. An entry that has expired when it comes to be moved is dropped
instead, and counted as an expiration. A read that finds its entry in the off-heap tier
takes it out and places it anew, so that a read may lose other entries too.

Every operation takes the time it runs at and does all its work at that time: expired
entries are found when their key is read or written, when they are moved, and by
`Store.cleanup`.
-/

namespace CacheService

/-- What has happened to reads and entries so far. -/
structure Tally where
  hits : Nat := 0
  misses : Nat := 0
  /-- Entries lost to the bounds of the tiers. -/
  evictions : Nat := 0
  /-- Entries removed because their time was over. -/
  expirations : Nat := 0
  deriving DecidableEq, Repr

namespace Tally

def hit (t : Tally) : Tally := { t with hits := t.hits + 1 }

def miss (t : Tally) : Tally := { t with misses := t.misses + 1 }

def evict (t : Tally) (n : Nat) : Tally := { t with evictions := t.evictions + n }

def expire (t : Tally) (n : Nat) : Tally := { t with expirations := t.expirations + n }

end Tally

/-- Two tiers, the policy that dates entries, and the counters. -/
structure Store where
  policy : ExpiryPolicy
  heap : Option Tier
  offHeap : Option Tier
  tally : Tally := {}

namespace Store

/-- An empty store with the tiers of a plan. -/
def empty (plan : CapacityPlan) (policy : ExpiryPolicy) : Store where
  policy := policy
  heap := plan.heap.map (Tier.empty "heap")
  offHeap := plan.offHeap.map (Tier.empty "off-heap")

/-! ## Views -/

/-- The number of entries in both tiers. -/
def size (s : Store) : Nat :=
  (s.heap.elim 0 Tier.size) + (s.offHeap.elim 0 Tier.size)

def heapBytes (s : Store) : Nat := s.heap.elim 0 Tier.usedBytes

def offHeapBytes (s : Store) : Nat := s.offHeap.elim 0 Tier.usedBytes

/-- The entry under a key, wherever it is, expired or not. -/
def find? (s : Store) (key : String) : Option Entry :=
  (s.heap.bind (·.get? key)).or (s.offHeap.bind (·.get? key))

/-! ## Placement -/

/-- The tier, if it could ever hold an entry of this footprint. -/
def admitting (tier : Option Tier) (footprint : Nat) : Option Tier :=
  tier.filter (·.admits footprint)

/-- Moves an entry down: into the off-heap tier, where it may push out others, or out of
the store if no tier admits it (`admitting`). An expired entry only counts as such. -/
def demote (s : Store) (now : UInt64) (key : String) (e : Entry) : Store :=
  if e.isExpiredAt now then { s with tally := s.tally.expire 1 }
  else
    match admitting s.offHeap (e.footprint key) with
    | some tier =>
      let (victims, tier) := tier.insert key e
      { s with offHeap := some tier, tally := s.tally.evict victims.length }
    | none => { s with tally := s.tally.evict 1 }

/-- Puts an entry in the heap tier if that admits it, and moves down what it
pushes out there; else moves the entry itself down. -/
def place (s : Store) (now : UInt64) (key : String) (e : Entry) : Store :=
  match admitting s.heap (e.footprint key) with
  | some tier =>
    let (victims, tier) := tier.insert key e
    victims.foldl (fun s kv => s.demote now kv.1 kv.2) { s with heap := some tier }
  | none => s.demote now key e

/-- A tier without a key, and the entry that was there. -/
def takeFrom (tier : Option Tier) (key : String) : Option Entry × Option Tier :=
  match tier with
  | none => (none, none)
  | some t =>
    match t.remove key with
    | none => (none, some t)
    | some (e, t) => (some e, some t)

/-- Takes a key out of both tiers. -/
def take (s : Store) (key : String) : Option Entry × Store :=
  let (fromHeap, heap) := takeFrom s.heap key
  let (fromOffHeap, offHeap) := takeFrom s.offHeap key
  (fromHeap.or fromOffHeap, { s with heap, offHeap })

/-! ## Operations -/

/-- The entry that a write makes, dated by the policy. An entry that is replaced counts
only if it is live: `onUpdate` is asked then, and `onCreation` otherwise. -/
def newEntry (policy : ExpiryPolicy) (previous : Option Entry) (value : ByteArray) (ttl : UInt32)
    (now : UInt64) : Entry :=
  let e := Entry.create value ttl now
  match previous.filter fun old => !old.isExpiredAt now with
  | some old => e.apply (policy.onUpdate old e) now
  | none => e.apply (policy.onCreation e) now

/-- Writes a value in place of any under its key. -/
def set (s : Store) (now : UInt64) (key : String) (value : ByteArray) (ttl : UInt32) : Store :=
  let (previous, s) := s.take key
  s.place now key (newEntry s.policy previous value ttl now)

/-- The entry after a read, dated anew if `onAccess` says so. -/
def accessed (policy : ExpiryPolicy) (e : Entry) (now : UInt64) : Entry :=
  match policy.onAccess e with
  | some expiry => e.apply expiry now
  | none => e

/-- Reads a key that the heap tier does not hold. A live entry is placed anew, as by a
write (`place`). -/
def getOffHeap (s : Store) (now : UInt64) (key : String) : Option ByteArray × Store :=
  match takeFrom s.offHeap key with
  | (none, _) => (none, { s with tally := s.tally.miss })
  | (some e, offHeap) =>
    if e.isExpiredAt now then
      (none, { s with offHeap, tally := (s.tally.expire 1).miss })
    else
      let s := { s with offHeap, tally := s.tally.hit }
      (some e.value, s.place now key (accessed s.policy e now))

/-- Reads a live value. An expired entry is removed and is a miss; an entry of
the off-heap tier moves up. -/
def get (s : Store) (now : UInt64) (key : String) : Option ByteArray × Store :=
  match s.heap with
  | none => s.getOffHeap now key
  | some tier =>
    match tier.get? key with
    | none => s.getOffHeap now key
    | some e =>
      if e.isExpiredAt now then
        (none, { s with heap := some (tier.erase key), tally := (s.tally.expire 1).miss })
      else
        let tier := (tier.setDeadline key (accessed s.policy e now).expiresAt).touch key
        (some e.value, { s with heap := some tier, tally := s.tally.hit })

/-- Removes a key from both tiers; an expired entry counts as found. -/
def delete (s : Store) (key : String) : Bool × Store :=
  let (found, s) := s.take key
  (found.isSome, s)

/-- Removes every entry. -/
def clear (s : Store) : Store :=
  { s with heap := s.heap.map Tier.clear, offHeap := s.offHeap.map Tier.clear }

/-- A tier without its expired entries, and their number. -/
def sweepTier (now : UInt64) : Option Tier → Nat × Option Tier
  | none => (0, none)
  | some t =>
    let (n, t) := t.removeExpired now
    (n, some t)

/-- Removes all expired entries and counts them. -/
def cleanup (s : Store) (now : UInt64) : Nat × Store :=
  let (n, heap) := sweepTier now s.heap
  let (m, offHeap) := sweepTier now s.offHeap
  (n + m, { s with heap, offHeap, tally := s.tally.expire (n + m) })

/-- Reads several keys in the order given, and keeps what is found. -/
def getMany (s : Store) (now : UInt64) : List String → List (String × ByteArray) × Store
  | [] => ([], s)
  | key :: keys =>
    match s.get now key with
    | (none, s) => s.getMany now keys
    | (some value, s) =>
      let (found, s) := s.getMany now keys
      ((key, value) :: found, s)

end Store

end CacheService
