import CacheService.Json.Basic
import CacheService.Store

/-!
# CacheService.Stats

The counters that every backend reports (`Stats`), whether it can move them or not. The
local ones are those of the store's `Tally`, the remote ones those of the client and its
nodes.
-/

namespace CacheService

/-- A snapshot of a backend's counters. -/
structure Stats where
  /-- The backend's short name. -/
  backend : String
  hits : Nat := 0
  misses : Nat := 0
  evictions : Nat := 0
  expirations : Nat := 0
  /-- Remote operations given up after the time limit. -/
  timeouts : Nat := 0
  /-- Remote operations that failed. -/
  errors : Nat := 0
  /-- Writes that never reached storage. -/
  droppedWrites : Nat := 0
  totalEntries : Nat := 0
  heapBytes : Nat := 0
  offHeapBytes : Nat := 0
  deriving DecidableEq, Repr

namespace Stats

/-- All counters at zero. -/
def zero (backend : String) : Stats := { backend }

/-- The share of reads that found something, 0 before the first read. -/
def hitRate (s : Stats) : Decimal.Binary64 :=
  let total := s.hits + s.misses
  let float (n : Nat) : Float := (UInt64.ofNat n).toFloat
  .ofFloat (if total = 0 then 0.0 else float s.hits / float total)

/-- The counters as a JSON object. -/
def toJson (s : Stats) : Json :=
  .members
    [("backend", .string s.backend), ("hits", .int s.hits), ("misses", .int s.misses),
      ("evictions", .int s.evictions), ("expirations", .int s.expirations),
      ("timeouts", .int s.timeouts), ("errors", .int s.errors),
      ("dropped_writes", .int s.droppedWrites), ("total_entries", .int s.totalEntries),
      ("heap_bytes", .int s.heapBytes), ("off_heap_bytes", .int s.offHeapBytes),
      ("hit_rate", .float s.hitRate)]

end Stats

/-- The counters of a store. -/
def Store.stats (s : Store) : Stats :=
  { Stats.zero "local" with
    hits := s.tally.hits
    misses := s.tally.misses
    evictions := s.tally.evictions
    expirations := s.tally.expirations
    totalEntries := s.size
    heapBytes := s.heapBytes
    offHeapBytes := s.offHeapBytes }

end CacheService
