import CacheService.Proofs.Store.Cascade
import CacheService.Proofs.Store.RecencyList

/-!
# CacheService.Proofs.Store.Residence

Where the row is found that a call has written or read. It rests in the heap tier if that
admits it, and else in the off-heap tier if that does, as the most recently used row of its
tier; so nothing that it pushes out, there or further down, takes its place. A row that
neither tier admits is not stored, nor is the one that it replaces.

* `lookups_of_heap`, `lookups_of_offHeap`, `lookups_of_absent` — the tiers that a key is
  found in, by the rows;
* `rests_perform` — where a live row rests after a call;
* `rests_after_use` — the same for writes and reads after any run.
-/

namespace CacheService

/-- The keys of a tier from the least to the most recently used; a missing tier has none. -/
def orderOf (tier : Option Tier) : List String := tier.elim [] (·.recency.toList)

/-- `orderOf` is the keys of the rows. -/
theorem TierOf.orderOf_eq {c : Option Capacity} {tier : Option Tier} (h : TierOf c tier) :
    orderOf tier = (rowsOf tier).map (·.1) := by
  cases h with
  | missing => rfl
  | present sound _ => exact sound.keys_rows.symm

namespace Store

variable {plan : CapacityPlan} {policy : ExpiryPolicy} {s s' : Store} {now : UInt64}
  {key : String} {e : Entry}

/-- What the heap tier and what the off-heap tier hold under `key`. -/
def lookups (s : Store) (key : String) : Option Entry × Option Entry :=
  (s.heap.bind (·.get? key), s.offHeap.bind (·.get? key))

/-! ## Looking up -/

/-- A key without a row is found in neither tier. -/
theorem lookups_of_absent (hv : s.Valid plan policy) (h : key ∉ s.rows.map (·.1)) :
    s.lookups key = (none, none) := by
  have hnone := Option.or_eq_none_iff.mp (hv.find?_eq_none.mpr h)
  rw [lookups, hnone.1, hnone.2]

/-- A row of the heap tier is found there only. -/
theorem lookups_of_heap (hv : s.Valid plan policy) (h : (key, e) ∈ rowsOf s.heap) :
    s.lookups key = (some e, none) := by
  have hapart := hv.disjoint (List.mem_map_of_mem (f := (·.1)) h)
  rw [lookups, hv.heap.mem_rows.mp h, Prod.mk.injEq, Option.eq_none_iff_forall_ne_some]
  refine ⟨rfl, fun e' he' => hapart ?_⟩
  exact List.mem_map_of_mem (f := (·.1)) (hv.offHeap.mem_rows.mpr he')

/-- A row of the off-heap tier is found there only. -/
theorem lookups_of_offHeap (hv : s.Valid plan policy) (h : (key, e) ∈ rowsOf s.offHeap) :
    s.lookups key = (none, some e) := by
  rw [lookups, hv.offHeap.mem_rows.mp h, Prod.mk.injEq, Option.eq_none_iff_forall_ne_some]
  refine ⟨fun e' he' => ?_, rfl⟩
  have hapart := hv.disjoint (List.mem_map_of_mem (f := (·.1)) (hv.heap.mem_rows.mpr he'))
  exact hapart (List.mem_map_of_mem (f := (·.1)) h)

/-! ## Where a row rests -/

/-- Where a live row rests that a call on its key has left: in the first tier that
`admits` it, and there as the most recently used; if no tier does, it is the one row
evicted. -/
inductive Rests (s : Store) (key : String) (e : Entry) (s' : Store) : Prop
  | inHeap (hadm : s.heap.any (·.admits (e.footprint key)) = true)
      (hfound : s'.lookups key = (some e, none)) (hlast : (orderOf s'.heap).getLast? = some key)
  | inOffHeap (hnot : s.heap.any (·.admits (e.footprint key)) = false)
      (hadm : s.offHeap.any (·.admits (e.footprint key)) = true)
      (hfound : s'.lookups key = (none, some e)) (hlast : (orderOf s'.offHeap).getLast? = some key)
  | nowhere (hnot : s.heap.any (·.admits (e.footprint key)) = false)
      (hnot' : s.offHeap.any (·.admits (e.footprint key)) = false)
      (hgone : s'.lookups key = (none, none))
      (hcount : s'.tally.evictions = s.tally.evictions + 1)

/-- The live row that a call leaves under its key `Rests`. -/
theorem rests_perform (hv : s.Valid plan policy) {c : Call} (hkey : c.op.key? = some key)
    (hafter : s.entryAfter c = some e) (hlive : e.isExpiredAt c.now = false) :
    s.Rests key e (s.perform c).2 := by
  have hv' := (perform_spec hv c).2.1
  obtain ⟨s₀, moving, pushed, hout, htally, hends⟩ := handles_perform hv hkey
  have hheap := hv.heap.any_admits (e.footprint key)
  have hoff := hv.offHeap.any_admits (e.footprint key)
  generalize (s.perform c).2 = s' at hv' hends
  rw [hafter] at hends
  cases hends with
  | placed hplaced =>
      cases hplaced with
      | @inHeap moving kept pushed s' hfits _ hrows _ =>
          refine .inHeap (hheap.trans hfits) (lookups_of_heap hv' (by simp [hrows])) ?_
          rw [hv'.heap.orderOf_eq, hrows]
          simp
      | below hfits _ hdown =>
          cases hdown with
          | expired hexp => simp [hlive] at hexp
          | settled hin hold hrows =>
              have hadm : fitsIn plan.offHeap (key, e) = true := (Bool.and_eq_true_iff.mp hin).1
              refine .inOffHeap (hheap.trans hfits) (hoff.trans hadm)
                (lookups_of_offHeap hv' (by simp [hrows])) ?_
              rw [hv'.offHeap.orderOf_eq, rowsOf_some, hrows]
              simp
          | refused hout' =>
              have hadm : fitsIn plan.offHeap (key, e) = false := by
                simpa using (Bool.and_eq_true_iff.mp hout').1
              refine .nowhere (hheap.trans hfits) (hoff.trans hadm)
                (lookups_of_absent hv' hout.fresh) ?_
              show s₀.tally.evictions + 1 = _
              rw [htally, ← (losses_counted s c).1]
              rfl

/-- **Where a used row rests.** After any run, on any clocks and under any policy: the entry
that a write makes and the entry that a read leaves, if not yet expired, rest in the heap
tier if that admits them, and else in the off-heap tier if that does, as the most recently
used. A written entry that neither admits is evicted, and no older one is left; an entry that
is read is always admitted. -/
theorem rests_after_use (plan : CapacityPlan) (policy : ExpiryPolicy) (past : List Call)
    (now : UInt64) (key : String) :
    let s := (empty plan policy).after past
    (∀ value ttl, let e := newEntry policy (s.find? key) value ttl now
      e.isExpiredAt now = false → e.value = value ∧ s.Rests key e (s.set now key value ttl)) ∧
    ∀ value, (s.get now key).1 = some value → ∃ old, s.live? now key = some old ∧
      let e := accessed policy old now
      e.isExpiredAt now = false → e.value = value ∧ s.admits (e.footprint key) = true ∧
        s.Rests key e (s.get now key).2 := by
  intro s
  have hv : s.Valid plan policy := valid_after (valid_empty plan policy) past
  constructor
  · intro value ttl e hlive
    have hafter : s.entryAfter ⟨now, .set key value ttl⟩ = some e := by
      rw [entryAfter, hv.policy_eq]
    exact ⟨value_newEntry .., rests_perform hv rfl hafter hlive⟩
  · intro value hread
    rw [(get_spec hv now key).1, Option.map_eq_some_iff] at hread
    obtain ⟨old, hold, rfl⟩ := hread
    refine ⟨old, hold, fun hlive => ⟨value_accessed .., ?_, ?_⟩⟩
    · rw [footprint_accessed]
      exact hv.admits_of_mem (hv.find?_eq_some.mp (Option.filter_eq_some_iff.mp hold).1)
    · have hafter : s.entryAfter ⟨now, .get key⟩ = some (accessed policy old now) := by
        simp only [entryAfter, hold, hv.policy_eq, Option.map_some]
      exact rests_perform hv rfl hafter hlive

/-- A heap tier that holds the rows of `b` and `c` after the row of `a` has made way for
them. The read of `a` brings it up, and the row of `b` goes down to where `a` has come from;
the write of `d` is another way up. -/
theorem rests_after_use_promoted :
    let plan : CapacityPlan := ⟨some (.bytes 134), some (.entries 2)⟩
    let past : List Call :=
      [⟨5, .set "a" ⟨#[1]⟩ 0⟩, ⟨3, .set "b" ⟨#[2]⟩ 9⟩, ⟨7, .set "c" ⟨#[3, 3, 3]⟩ 0⟩]
    ((empty plan .entryTtl).after past).lookups "a" = (none, some (.written 5 ⟨#[1]⟩ 0)) ∧
      (((empty plan .entryTtl).after past).get 6 "a").1 = some ⟨#[1]⟩ ∧
      ((empty plan .entryTtl).after past).Rests "a" (.written 5 ⟨#[1]⟩ 0)
        (((empty plan .entryTtl).after past).get 6 "a").2 ∧
      ((empty plan .entryTtl).after past).Rests "d" (.written 8 ⟨#[4]⟩ 1)
        (((empty plan .entryTtl).after past).set 8 "d" ⟨#[4]⟩ 1) := by
  intro plan past
  have hfound : ((empty plan .entryTtl).after past).live? 6 "a" = some (.written 5 ⟨#[1]⟩ 0) := by
    cbv
  have hread : (((empty plan .entryTtl).after past).get 6 "a").1 = some ⟨#[1]⟩ := by cbv
  refine ⟨by cbv, hread, ?_, ?_⟩
  · obtain ⟨old, hold, hrests⟩ := (rests_after_use plan .entryTtl past 6 "a").2 _ hread
    obtain rfl := Option.some.inj (hold.symm.trans hfound)
    exact (hrests (by cbv)).2.2
  · have hwritten := ((rests_after_use plan .entryTtl past 8 "d").1 ⟨#[4]⟩ 1 (by cbv)).2
    rwa [newEntry_entryTtl] at hwritten

end Store

end CacheService
