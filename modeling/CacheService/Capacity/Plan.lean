import CacheService.Capacity.Basic
import CacheService.Error
import CacheService.Properties

/-!
# CacheService.Capacity.Plan

Building a capacity plan. A `Draft` takes each tier at most once, a bound of zero counts
as given while the draft is filled and as absent once it is built (`Draft.effective`),
and a plan needs at least one tier that lets something in.

A draft is filled by steps (`ofSteps`), of which the first that is refused is the error.
The configuration gives three sizes, of which zero means none (`ofSizes`); both sizes of
the heap tier together are refused, since that tier would be given twice.
-/

namespace CacheService

namespace CapacityPlan

/-- A plan in the making. -/
structure Draft where
  heap : Option Capacity
  offHeap : Option Capacity
  deriving DecidableEq, Repr

namespace Draft

/-- Nothing given yet. -/
def empty : Draft := ⟨none, none⟩

/-- Gives the heap tier its bound. -/
def addHeap (d : Draft) (c : Capacity) : Except CacheError Draft :=
  match d.heap with
  | some present => .error (.configuration (.heapTwice c present))
  | none => .ok { d with heap := some c }

/-- Gives the off-heap tier a bound in megabytes. -/
def addOffHeap (d : Draft) (mb : UInt64) : Except CacheError Draft :=
  match d.offHeap with
  | some present => .error (.configuration (.offHeapTwice (.megabytes mb) present))
  | none => .ok { d with offHeap := some (.megabytes mb) }

/-- Gives the off-heap tier any bound. -/
def addOffHeapCapacity (d : Draft) (c : Capacity) : Except CacheError Draft :=
  match d.offHeap with
  | some _ => .error (.configuration .offHeapPresent)
  | none => .ok { d with offHeap := some c }

/-- The bound, unless it lets nothing in. -/
def effective : Option Capacity → Option Capacity
  | some c => if c.isZero then none else some c
  | none => none

/-- The plan of the draft's nonzero bounds, of which there must be one. -/
def build (d : Draft) : Except CacheError CapacityPlan :=
  match effective d.heap, effective d.offHeap with
  | none, none => .error (.configuration .noCapacity)
  | heap, offHeap => .ok ⟨heap, offHeap⟩

end Draft

/-- One step of filling a draft. -/
inductive Step
  | heap (c : Capacity)
  | offHeap (mb : UInt64)
  | offHeapCapacity (c : Capacity)
  deriving DecidableEq, Repr

def Step.apply (d : Draft) : Step → Except CacheError Draft
  | .heap c => d.addHeap c
  | .offHeap mb => d.addOffHeap mb
  | .offHeapCapacity c => d.addOffHeapCapacity c

/-- Fills an empty draft step by step and builds it; the first refused step is
the error. -/
def ofSteps (steps : List Step) : Except CacheError CapacityPlan := do
  let draft ← steps.foldlM Step.apply Draft.empty
  draft.build

/-- The plan of three sizes, of which zero means none. -/
def ofSizes (heapMb heapEntries offHeapMb : UInt64) : Except CacheError CapacityPlan :=
  if heapMb = 0 ∧ heapEntries = 0 ∧ offHeapMb = 0 then .error (.configuration .noSizes)
  else
    ofSteps <|
      (if heapMb = 0 then [] else [Step.heap (.megabytes heapMb)])
        ++ (if heapEntries = 0 then [] else [Step.heap (.entries heapEntries)])
        ++ (if offHeapMb = 0 then [] else [Step.offHeap offHeapMb])

/-! ## Properties -/

def heapMbKey : String := "cache.heapSizeInMb"
def heapEntriesKey : String := "cache.heapSizeInEntries"
def offHeapMbKey : String := "cache.offHeapSizeInMb"

/-- The plan of the three sizing keys, which are read in the order in which they stand
above; the first that does not read is the error. -/
def ofProperties (p : Properties) : Except CacheError CapacityPlan := do
  let heapMb ← p.getSize heapMbKey
  let heapEntries ← p.getSize heapEntriesKey
  let offHeapMb ← p.getSize offHeapMbKey
  ofSizes heapMb heapEntries offHeapMb

/-- Whether any sizing key is present. -/
def hasSizing (p : Properties) : Bool :=
  p.contains heapMbKey || p.contains heapEntriesKey || p.contains offHeapMbKey

end CapacityPlan

end CacheService
