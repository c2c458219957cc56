import CacheService.Proofs.Cache.InUse
import CacheService.Proofs.Store.Settlement

/-!
# CacheService.Proofs.Cache.LocalStore

The store behind a cache that keeps its values in this process. Whatever is done to the
cache while it is in use, its store is one that a run of operations leads to from the
empty store of its plan (`Backend.HasStore`): a read of several keys is a run of reads
(`Call.onStore`), and the sweep is an operation like any other. This is a property that
a backend in use keeps (`preserved_hasStore`), so it holds after any run
(`Cache.store_after`).
-/

namespace CacheService

open Remote (Network)

variable {σ : Type} [Network σ]

namespace Backend

/-- The operations of a store that a call comes to; a stop leaves no store. -/
def Call.onStore (now : UInt64) : Call → List Store.Call
  | .get key => [⟨now, .get key⟩]
  | .getMany keys => keys.map fun key => ⟨now, .get key⟩
  | .set key value ttl => [⟨now, .set key value ttl⟩]
  | .delete key => [⟨now, .delete key⟩]
  | .clear => [⟨now, .clear⟩]
  | .cleanup => [⟨now, .cleanup⟩]
  | .stop => []

/-- A local backend does to its store what `Call.onStore` says. -/
theorem perform_localTiers (s : Store) (w : World σ) {call : Call} (hruns : call ≠ .stop) :
    ((Backend.localTiers (some s)).perform w call).2 =
      (.localTiers (some (s.after (call.onStore w.now))), w) := by
  cases call with
  | getMany keys =>
      rw [Call.onStore, ← Store.getMany_eq_after]
      rfl
  | stop => contradiction
  | _ => rfl

/-- A call comes to no more operations than it counts as. -/
theorem Call.length_onStore_le (call : Call) (now : UInt64) :
    (call.onStore now).length ≤ call.weight := by
  cases call <;> simp [onStore, weight]

/-- A backend with a store that operations have led to from an empty one. -/
def HasStore (plan : CapacityPlan) (b : Backend) : Prop :=
  ∃ calls : List Store.Call, b = .localTiers (some ((Store.empty plan .entryTtl).after calls))

/-- Whatever happens to a local backend in use, it `HasStore`. -/
theorem preserved_hasStore (plan : CapacityPlan) :
    Preserved σ (.localTiers plan) fun _ b => b.HasStore plan where
  built b hb := by
    obtain rfl := Except.ok.inj hb
    exact ⟨[], rfl⟩
  more _ _ _ _ h := h
  call n b w call hruns h := by
    obtain ⟨calls, rfl⟩ := h
    refine ⟨calls ++ call.onStore w.now, ?_⟩
    rw [perform_localTiers _ w hruns, Store.after_append]
  sweep n b w h := by
    obtain ⟨calls, rfl⟩ := h
    refine ⟨calls ++ [⟨w.now, .cleanup⟩], ?_⟩
    rw [Store.after_append]
    rfl
  workers n c w h := by
    obtain ⟨calls, h⟩ := h
    contradiction

end Backend

namespace Cache

/-- **The store of a local cache** in use, after any run: the backend `HasStore`. -/
theorem store_after (plan : CapacityPlan) (interval : Span) (hasTimer : Bool)
    (steps : List (Step σ))
    {b : Backend} {sweep : Option Sweep}
    (h : (Cache.after
      { config := .localTiers plan, cleanupInterval := interval, hasTimer } steps).state =
        .active b sweep) : b.HasStore plan :=
  (inUse_after (Backend.preserved_hasStore plan) interval hasTimer steps).holds b sweep h

end Cache

end CacheService
