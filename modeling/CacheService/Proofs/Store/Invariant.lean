import CacheService.Stats
import CacheService.Proofs.Store.Settlement

/-!
# CacheService.Proofs.Store.Invariant

What holds of a store after every run of operations (`Store.Invariant`): no key is in
both tiers, each tier is within its bound, and the byte counts and the orders of use are
those of the entries.

The byte counts are natural numbers, on which a subtraction that goes below zero would
stop at zero; the `Backed` predicates say of each operation that none of its
subtractions does. They follow the operation: a removal, a round of making room, an
insertion (`InsertBacked`), a sweep, and then a row that moves down (`DemoteBacked`) or
is placed (`PlaceBacked`). Each is proved of every `Sound` tier, and so of every store
that is `Valid`.
-/

namespace CacheService

open Std

namespace Tier

/-- What holds of a tier between the operations of its store. -/
structure Invariant (t : Tier) : Prop where
  bound : match t.capacity with
    | .entries max => t.size ≤ max.toNat
    | .bytes max => t.usedBytes ≤ max.toNat
  bytes : t.usedBytes =
    (t.entries.toList.map fun row => row.1.utf8ByteSize + row.2.value.size + 64).sum
  tracked : ∀ key, t.recency.contains key = t.entries.contains key
  order : t.recency.toList.Perm t.entries.keys

variable {t : Tier}

/-- The bytes of a `Sound` tier are those of its entries. -/
theorem Sound.usedBytes_eq (h : t.Sound) : t.usedBytes = bytesOf t.entries.toList := by
  rw [h.bytes, bytesOf_perm h.rows_perm]

theorem Sound.mem_keys (h : t.Sound) {key : String} : key ∈ t.rows.map (·.1) ↔ key ∈ t.entries := by
  rw [h.keys_rows, h.mem_order, get?_isSome]

/-- The tracked keys are the stored ones. -/
theorem Sound.contains_eq (h : t.Sound) (key : String) :
    t.recency.contains key = t.entries.contains key := by
  have hkeys := h.keys key
  rw [TreeMap.mem_iff_contains, TreeMap.mem_iff_contains] at hkeys
  exact Bool.eq_iff_iff.mpr hkeys

/-- The order of use is of the stored keys, each once. -/
theorem Sound.order_perm (h : t.Sound) : t.recency.toList.Perm t.entries.keys := by
  rw [← h.keys_rows, ← TreeMap.map_fst_toList_eq_keys]
  exact h.rows_perm.map _

/-- A `Sound` tier within its bound satisfies the `Invariant`. -/
theorem invariant_of_sound (h : t.Sound) (hb : t.capacity.Allows t.rows) : t.Invariant where
  bound := by
    unfold Capacity.Allows at hb
    rw [h.size_eq, h.bytes]
    exact hb
  bytes := h.usedBytes_eq
  tracked := h.contains_eq
  order := h.order_perm

/-! ## Subtractions of a tier -/

/-- Taking out a key takes no more bytes than there are. -/
def RemoveBacked (t : Tier) (key : String) : Prop :=
  ∀ e, t.get? key = some e → e.footprint key ≤ t.usedBytes

/-- Nor does any round of making room, by `evictOldest`. -/
def EvictBacked (footprint : Nat) : (rounds : Nat) → Tier → Prop
  | 0, _ => True
  | rounds + 1, t =>
    t.hasRoomFor footprint = false →
      match t.evictOldest with
      | none => True
      | some (victim, t') =>
        (∀ row ∈ victim, row.2.footprint row.1 ≤ t.usedBytes) ∧ EvictBacked footprint rounds t'

/-- Nor does an insertion, which takes out the key and then makes room. -/
def InsertBacked (t : Tier) (key : String) (e : Entry) : Prop :=
  t.RemoveBacked key ∧
    EvictBacked (e.footprint key) (t.erase key).recency.size (t.erase key)

/-- Nor does a sweep, which takes out one key after the other. -/
def SweepBacked : List String → Tier → Prop
  | [], _ => True
  | key :: keys, t => t.RemoveBacked key ∧ SweepBacked keys (t.erase key)

/-- A removal from a `Sound` tier is backed by its entries. -/
theorem Sound.removeBacked (h : t.Sound) (key : String) : t.RemoveBacked key :=
  fun _ he => h.footprint_le he

/-- So is every round of making room. -/
theorem Sound.evictBacked (h : t.Sound) (footprint rounds : Nat) :
    EvictBacked footprint rounds t := by
  induction rounds generalizing t with
  | zero => trivial
  | succ rounds ih =>
      intro _
      rw [evictOldest_eq h]
      cases hrows : t.rows with
      | nil => trivial
      | cons row rows =>
          refine ⟨?_, ih (sound_erase h row.1)⟩
          intro victim hvictim
          rw [List.mem_singleton.mp hvictim, h.bytes]
          exact footprint_le_bytesOf (by simp [hrows])

/-- So is an insertion. -/
theorem Sound.insertBacked (h : t.Sound) (key : String) (e : Entry) : t.InsertBacked key e :=
  ⟨h.removeBacked key, (sound_erase h key).evictBacked _ _⟩

/-- So is a sweep. -/
theorem Sound.sweepBacked (h : t.Sound) (keys : List String) : SweepBacked keys t := by
  induction keys generalizing t with
  | nil => trivial
  | cons key keys ih => exact ⟨h.removeBacked key, ih (sound_erase h key)⟩

end Tier

namespace TierOf

variable {c : Option Capacity} {tier : Option Tier} {t : Tier}

theorem allows (h : TierOf c (some t)) : t.capacity.Allows t.rows := by
  cases h with
  | present _ bound => exact bound

theorem map_capacity (h : TierOf c tier) : tier.map (·.capacity) = c := by
  cases h <;> rfl

theorem usedBytes_entries (h : TierOf c tier) :
    tier.elim 0 Tier.usedBytes = tier.elim 0 fun t => bytesOf t.entries.toList := by
  cases h with
  | missing => rfl
  | present sound _ => exact sound.usedBytes_eq

end TierOf

namespace Store

/-! ## Subtractions of a store -/

/-- Moving a row down inserts it into the off-heap tier (`InsertBacked`) or nowhere. -/
def DemoteBacked (s : Store) (now : UInt64) (key : String) (e : Entry) : Prop :=
  e.isExpiredAt now = false →
    ∀ t, admitting s.offHeap (e.footprint key) = some t → t.InsertBacked key e

/-- Several rows, one after the other, each in the store that the one before leaves. -/
def DemoteAllBacked (now : UInt64) : List Row → Store → Prop
  | [], _ => True
  | row :: rows, s =>
    s.DemoteBacked now row.1 row.2 ∧ DemoteAllBacked now rows (s.demote now row.1 row.2)

/-- Placing a row inserts it into the heap tier and moves down what that pushes out, or
moves down the row itself. -/
def PlaceBacked (s : Store) (now : UInt64) (key : String) (e : Entry) : Prop :=
  match admitting s.heap (e.footprint key) with
  | some t =>
    t.InsertBacked key e ∧
      DemoteAllBacked now (t.insert key e).1 { s with heap := some (t.insert key e).2 }
  | none => s.DemoteBacked now key e

/-- No subtraction of a call takes more bytes from a tier than it has. -/
def Backed (s : Store) (c : Call) : Prop :=
  let removeBacked (key : String) : Prop :=
    ∀ t, s.heap = some t ∨ s.offHeap = some t → t.RemoveBacked key
  match c.op with
  | .set key value ttl =>
    removeBacked key ∧
      (s.take key).2.PlaceBacked c.now key (newEntry s.policy (s.take key).1 value ttl c.now)
  | .get key =>
    removeBacked key ∧
      ∀ e offHeap, takeFrom s.offHeap key = (some e, offHeap) →
        PlaceBacked { s with offHeap } c.now key (accessed s.policy e c.now)
  | .delete key => removeBacked key
  | .clear => True
  | .cleanup =>
    ∀ t, s.heap = some t ∨ s.offHeap = some t → Tier.SweepBacked (t.expiredKeys c.now) t

variable {plan : CapacityPlan} {policy : ExpiryPolicy} {s : Store}

theorem demoteBacked (h : TierOf plan.offHeap s.offHeap) (now : UInt64) (key : String) (e : Entry) :
    s.DemoteBacked now key e := by
  intro _ t ht
  rw [(admitting_eq_some.mp ht).1] at h
  exact h.sound.insertBacked key e

/-- `demote` leaves a tier within its bound. -/
theorem tierOf_demote {c : Option Capacity} (h : TierOf c s.offHeap) (now : UInt64) (key : String)
    (e : Entry) : TierOf c (s.demote now key e).offHeap := by
  unfold demote
  split
  · exact h
  · split
    · next t ht =>
        obtain ⟨htier, hfits⟩ := admitting_eq_some.mp ht
        rw [htier] at h
        exact h.insert hfits
    · exact h

theorem demoteAllBacked (s : Store) (h : TierOf plan.offHeap s.offHeap) (now : UInt64)
    (rows : List Row) : DemoteAllBacked now rows s := by
  induction rows generalizing s with
  | nil => trivial
  | cons row rows ih =>
      exact ⟨demoteBacked h now row.1 row.2, ih _ (tierOf_demote h now row.1 row.2)⟩

theorem placeBacked (s : Store) (hheap : TierOf plan.heap s.heap)
    (hoff : TierOf plan.offHeap s.offHeap) (now : UInt64) (key : String) (e : Entry) :
    s.PlaceBacked now key e := by
  unfold PlaceBacked
  split
  · next t ht =>
      rw [(admitting_eq_some.mp ht).1] at hheap
      exact ⟨hheap.sound.insertBacked key e,
        demoteAllBacked { s with heap := some (t.insert key e).2 } hoff now _⟩
  · exact demoteBacked hoff now key e

/-- The tiers of a `Valid` store are `Sound`. -/
theorem Valid.sound (hv : s.Valid plan policy) {t : Tier}
    (ht : s.heap = some t ∨ s.offHeap = some t) : t.Sound := by
  have hheap := hv.heap
  have hoff := hv.offHeap
  rcases ht with ht | ht
  · rw [ht] at hheap
    exact hheap.sound
  · rw [ht] at hoff
    exact hoff.sound

/-- Every call on a `Valid` store is `Backed`. -/
theorem Valid.backed (hv : s.Valid plan policy) (c : Call) : s.Backed c := by
  obtain ⟨now, op⟩ := c
  have hremove : ∀ key t, s.heap = some t ∨ s.offHeap = some t → t.RemoveBacked key :=
    fun key _ ht => (hv.sound ht).removeBacked key
  cases op with
  | set key value ttl =>
      have htake := (take_spec hv key).2.1
      exact ⟨hremove key, placeBacked _ htake.heap htake.offHeap now key _⟩
  | get key =>
      refine ⟨hremove key, ?_⟩
      intro e offHeap heq
      have hoff := (hv.offHeap.takeFrom key).2.1
      rw [heq] at hoff
      exact placeBacked { s with offHeap } hv.heap hoff now key _
  | delete key => exact hremove key
  | clear => trivial
  | cleanup => exact fun t ht => (hv.sound ht).sweepBacked _

/-! ## The invariant -/

/-- What holds of a store between its operations, with `Tier.Invariant` of either tier. -/
structure Invariant (plan : CapacityPlan) (s : Store) : Prop where
  heap_capacity : s.heap.map (·.capacity) = plan.heap
  offHeap_capacity : s.offHeap.map (·.capacity) = plan.offHeap
  disjoint : ∀ t t', s.heap = some t → s.offHeap = some t' →
    ∀ key, ¬ (key ∈ t.entries ∧ key ∈ t'.entries)
  tiers : ∀ t, s.heap = some t ∨ s.offHeap = some t → t.Invariant
  heapBytes : s.stats.heapBytes = s.heap.elim 0 fun t => bytesOf t.entries.toList
  offHeapBytes : s.stats.offHeapBytes = s.offHeap.elim 0 fun t => bytesOf t.entries.toList

/-- A `Valid` store satisfies the `Invariant`. -/
theorem Valid.invariant (hv : s.Valid plan policy) : s.Invariant plan where
  heap_capacity := hv.heap.map_capacity
  offHeap_capacity := hv.offHeap.map_capacity
  disjoint := by
    intro t t' ht ht' key hmem
    have hin : key ∈ (rowsOf s.heap).map (·.1) := by
      rw [ht]
      exact (hv.sound (.inl ht)).mem_keys.mpr hmem.1
    have hin' : key ∈ (rowsOf s.offHeap).map (·.1) := by
      rw [ht']
      exact (hv.sound (.inr ht')).mem_keys.mpr hmem.2
    exact hv.disjoint hin hin'
  tiers := by
    intro t ht
    have hheap := hv.heap
    have hoff := hv.offHeap
    rcases ht with ht | ht
    · rw [ht] at hheap
      exact Tier.invariant_of_sound hheap.sound hheap.allows
    · rw [ht] at hoff
      exact Tier.invariant_of_sound hoff.sound hoff.allows
  heapBytes := hv.heap.usedBytes_entries
  offHeapBytes := hv.offHeap.usedBytes_entries

/-- **After every run** of operations on an empty store, whatever the clocks and
the policy say, the store satisfies its invariant, and no subtraction of the
call that comes next goes below zero. -/
theorem invariant_after (plan : CapacityPlan) (policy : ExpiryPolicy) (calls : List Call) :
    ((empty plan policy).after calls).Invariant plan ∧
      ∀ c, ((empty plan policy).after calls).Backed c := by
  have hv := valid_after (valid_empty plan policy) calls
  exact ⟨hv.invariant, hv.backed⟩

end Store

end CacheService
