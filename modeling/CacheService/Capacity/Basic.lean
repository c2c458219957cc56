/-!
# CacheService.Capacity.Basic

The size bound of one storage tier and the pair of bounds that a two-tier
store is built from.
-/

namespace CacheService

/-- The bound of a tier: a number of entries, or a number of bytes of keys,
values and bookkeeping. -/
inductive Capacity
  | entries (max : UInt64)
  | bytes (max : UInt64)
  deriving DecidableEq, Repr

namespace Capacity

/-- The largest 64-bit size. -/
def maxSize : Nat := UInt64.size - 1

/-- Megabytes as bytes; a size beyond 64 bits is the largest one. -/
def megabytes (mb : UInt64) : Capacity :=
  .bytes (UInt64.ofNat (min (mb.toNat * 1048576) maxSize))

/-- A bound that lets nothing in. -/
def isZero : Capacity → Bool
  | .entries max => max == 0
  | .bytes max => max == 0

/-- The bound in messages. -/
def text : Capacity → String
  | .entries max => "Entries(" ++ toString max ++ ")"
  | .bytes max => "Bytes(" ++ toString max ++ ")"

/-- The bytes of so many megabytes, up to the largest size. -/
theorem megabytes_eq (mb : UInt64) :
    ∃ n : UInt64, megabytes mb = .bytes n ∧ n.toNat = min (mb.toNat * 1048576) maxSize := by
  refine ⟨_, rfl, ?_⟩
  exact UInt64.toNat_ofNat_of_lt' (Nat.lt_of_le_of_lt (Nat.min_le_right ..) (by decide))

end Capacity

/-- The bounds of a store's tiers; a tier without a bound does not exist. -/
structure CapacityPlan where
  heap : Option Capacity
  offHeap : Option Capacity
  deriving DecidableEq, Repr

end CacheService
