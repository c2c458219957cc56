import Mathlib
import CacheService.Proofs.Expiry
import CacheService.Proofs.Store.Invariant

/-!
# CacheService.Proofs.Store.Sweep

What a sweep leaves. It takes the keys of the expired entries down first and then erases one
after the other, each from the entries, the order of use and the byte count.

* `swept_foldl_erase` — a tier after a sweep: the entries whose deadline is still to come,
  each as it was, in the order in which they were used;
* `removeExpired_twice` — a second sweep at the same time finds nothing;
* `sweep_exact` — both tiers, the number that is answered and the counters, after any run;
* `sweep_unseen` — what later calls on a key can tell of a sweep: reads nothing, and a
  deletion only whether it still met an expired entry.
-/

namespace CacheService

namespace Tier

variable {t : Tier} {now : UInt64}

/-! ## One tier -/

/-- What a sweep leaves of a tier: the entries whose deadline is still to come. -/
structure Swept (now : UInt64) (t t' : Tier) : Prop where
  name : t'.name = t.name
  capacity : t'.capacity = t.capacity
  entries : ∀ key e, t'.get? key = some e ↔
    t.get? key = some e ∧ ∀ deadline ∈ e.expiresAt, now < deadline
  order : t'.recency.toList = t.recency.toList.filter fun key => (t'.get? key).isSome
  bytes : t'.usedBytes = bytesOf t'.entries.toList
  sound : t'.Sound

theorem name_foldl_erase (t : Tier) (keys : List String) : (keys.foldl erase t).name = t.name := by
  induction keys generalizing t with
  | nil => rfl
  | cons key keys ih =>
      rw [List.foldl_cons, ih]
      unfold erase remove
      cases t.get? key <;> rfl

/-- `Swept` is known by the rows that are left. -/
theorem swept_of_rows {t' : Tier} (h : t.Sound) (h' : t'.Sound) (hname : t'.name = t.name)
    (hcap : t'.capacity = t.capacity) (hrows : t'.rows = t.rows.filter (!·.2.isExpiredAt now)) :
    Swept now t t' := by
  have hentries (key : String) (e : Entry) : t'.get? key = some e ↔
      t.get? key = some e ∧ ∀ deadline ∈ e.expiresAt, now < deadline := by
    rw [← h'.mem_rows, hrows, List.mem_filter, h.mem_rows, Bool.not_eq_true',
      Entry.isExpiredAt_eq_false]
  refine ⟨hname, hcap, hentries, ?_, h'.usedBytes_eq, h'⟩
  rw [← h'.keys_rows, ← h.keys_rows, List.filter_map, hrows]
  congr 1
  refine List.filter_congr fun ⟨key, e⟩ hrow => ?_
  have hstored := h.mem_rows.mp hrow
  rw [Bool.eq_iff_iff, Bool.not_eq_true', Entry.isExpiredAt_eq_false, Function.comp_apply,
    Option.isSome_iff_exists]
  constructor
  · exact fun hlive => ⟨e, (hentries key e).mpr ⟨hstored, hlive⟩⟩
  · rintro ⟨e', hkept⟩
    obtain ⟨hstored', hlive⟩ := (hentries key e').mp hkept
    obtain rfl := Option.some.inj (hstored.symm.trans hstored')
    exact hlive

/-- The expired keys may be gone through in any order: what is left is `Swept`. -/
theorem swept_foldl_erase (h : t.Sound) {keys : List String}
    (hkeys : keys.Perm (t.expiredKeys now)) : Swept now t (keys.foldl erase t) := by
  obtain ⟨hrows, hsound, hcap⟩ := rows_foldl_erase h keys
  refine swept_of_rows h hsound (name_foldl_erase t keys) hcap ?_
  rw [hrows, ← (rows_removeExpired h now).1, removeExpired, (rows_foldl_erase h _).1]
  exact List.filter_congr fun row _ => decide_eq_decide.mpr (not_congr hkeys.mem_iff)

/-- After a sweep, no key has expired. -/
theorem expiredKeys_removeExpired (h : t.Sound) (now : UInt64) :
    (t.removeExpired now).2.expiredKeys now = [] := by
  obtain ⟨hrows, hsound, -⟩ := rows_removeExpired h now
  rw [← List.length_eq_zero_iff, length_expiredKeys hsound, hrows, List.filter_filter]
  simp

/-- A second `removeExpired` at the same time finds nothing, and changes nothing. -/
theorem removeExpired_twice (h : t.Sound) (now : UInt64) :
    (t.removeExpired now).2.removeExpired now = (0, (t.removeExpired now).2) := by
  have hnone := expiredKeys_removeExpired h now
  generalize (t.removeExpired now).2 = t' at hnone ⊢
  rw [removeExpired, hnone]
  rfl

end Tier

namespace TierOf

variable {c : Option Capacity} {tier : Option Tier}

/-- A tier that may be missing is `Swept` if it is there. -/
theorem swept (h : TierOf c tier) (now : UInt64) :
    Option.Rel (Tier.Swept now) tier (Store.sweepTier now tier).2 := by
  cases h with
  | missing => exact .none
  | present sound _ => exact .some (Tier.swept_foldl_erase sound (.refl _))

theorem sweepTier_twice (h : TierOf c tier) (now : UInt64) :
    Store.sweepTier now (Store.sweepTier now tier).2 = (0, (Store.sweepTier now tier).2) := by
  cases h with
  | missing => rfl
  | present sound _ =>
      have htwice := Tier.removeExpired_twice sound now
      simp only [Store.sweepTier, htwice]

end TierOf

namespace Store

variable {plan : CapacityPlan} {policy : ExpiryPolicy} {s : Store}

/-! ## The store -/

/-- A second `cleanup` at the same time finds nothing, and changes nothing. -/
theorem cleanup_twice (hv : s.Valid plan policy) (now : UInt64) :
    (s.cleanup now).2.cleanup now = (0, (s.cleanup now).2) := by
  have hheap := hv.heap.sweepTier_twice now
  have hoff := hv.offHeap.sweepTier_twice now
  simp only [cleanup, hheap, hoff, Tally.expire, Nat.add_zero]

/-- **A sweep** after any run, at any time and under any policy. In both tiers it leaves
exactly the entries whose deadline is still to come, with their order of use and their bytes;
it answers how many entries are gone and counts these as expired, and nothing else. A second
sweep at the same time finds nothing, and changes nothing. -/
theorem sweep_exact (plan : CapacityPlan) (policy : ExpiryPolicy) (past : List Call)
    (now : UInt64) :
    let s := (empty plan policy).after past
    let s' := (s.cleanup now).2
    Option.Rel (Tier.Swept now) s.heap s'.heap ∧
      Option.Rel (Tier.Swept now) s.offHeap s'.offHeap ∧
      s.size = s'.size + (s.cleanup now).1 ∧
      s'.tally = { s.tally with expirations := s.tally.expirations + (s.cleanup now).1 } ∧
      s'.policy = s.policy ∧
      s'.cleanup now = (0, s') := by
  intro s s'
  have hv : s.Valid plan policy := valid_after (valid_empty plan policy) past
  obtain ⟨hcount, hv', hrows, htally⟩ := cleanup_spec hv now
  refine ⟨hv.heap.swept now, hv.offHeap.swept now, ?_, htally, rfl, cleanup_twice hv now⟩
  rw [hv.size_eq, hv'.size_eq, hrows, hcount, Nat.add_comm]
  exact List.length_eq_length_filter_add _

/-! ## What a sweep changes for a key -/

/-- A sweep takes away what reads pass over: what is found after it is `live?`. -/
theorem find?_cleanup (hv : s.Valid plan policy) (now : UInt64) (key : String) :
    (s.cleanup now).2.find? key = s.live? now key := by
  obtain ⟨-, hv', hrows, -⟩ := cleanup_spec hv now
  ext e
  rw [hv'.find?_eq_some, hrows, List.mem_filter, ← hv.find?_eq_some, live?,
    Option.filter_eq_some_iff]

/-- A sweep changes nothing that is `live?`. -/
theorem live?_cleanup (hv : s.Valid plan policy) (now : UInt64) (key : String) :
    (s.cleanup now).2.live? now key = s.live? now key := by
  rw [live?, find?_cleanup hv, live?, Option.filter_filter]
  simp

/-- What is stored under a key is `live?` or it is an expired entry. -/
theorem isSome_find?_iff (s : Store) (now : UInt64) (key : String) :
    (s.find? key).isSome ↔
      (s.live? now key).isSome ∨ ∃ e, s.find? key = some e ∧ e.isExpiredAt now = true := by
  rw [live?]
  cases s.find? key with
  | none => simp
  | some e => cases hexp : e.isExpiredAt now <;> simp [Option.filter, hexp]

/-- An entry under a key is not both. -/
theorem live?_eq_none_of_expired {now : UInt64} {key : String}
    (h : ∃ e, s.find? key = some e ∧ e.isExpiredAt now = true) : s.live? now key = none := by
  obtain ⟨e, hfound, hexp⟩ := h
  simp [live?, hfound, Option.filter, hexp]

/-- **What a sweep shows of itself** in a later answer about a key, after any run, at the
same time and under any policy. A read answers the same with and without it, and after it a
deletion finds what a read would have answered. Without it a deletion also finds an expired
entry: it finds something exactly if a read would have answered a value or an expired entry
is stored, and so it tells whether there has been a sweep exactly if one is stored. -/
theorem sweep_unseen (plan : CapacityPlan) (policy : ExpiryPolicy) (past : List Call)
    (now : UInt64) (key : String) :
    let s := (empty plan policy).after past
    let swept := (s.cleanup now).2
    let stale := ∃ e, s.find? key = some e ∧ e.isExpiredAt now = true
    (swept.get now key).1 = (s.get now key).1 ∧
      (swept.delete key).1 = (s.get now key).1.isSome ∧
      ((s.delete key).1 = true ↔ (s.get now key).1.isSome ∨ stale) ∧
      ((s.delete key).1 ≠ (swept.delete key).1 ↔ stale) := by
  intro s swept stale
  have hv : s.Valid plan policy := valid_after (valid_empty plan policy) past
  have hswept : swept.Valid plan policy := (cleanup_spec hv now).2.1
  have hread := (get_spec hv now key).1
  have hfound : (s.delete key).1 = (s.find? key).isSome := (delete_spec hv key).1
  have hlive : (swept.delete key).1 = (s.live? now key).isSome := by
    rw [(delete_spec hswept key).1, find?_cleanup hv]
  have hstored := isSome_find?_iff s now key
  refine ⟨?_, ?_, ?_, ?_⟩
  · rw [hread, (get_spec hswept now key).1, live?_cleanup hv]
  · rw [hlive, hread, Option.isSome_map]
  · rw [hfound, hread, Option.isSome_map]
    exact hstored
  · rw [hfound, hlive, ne_eq, Bool.eq_iff_iff, hstored, or_iff_left_iff_imp, Classical.not_imp]
    constructor
    · exact fun h => h.1
    · intro hstale
      rw [live?_eq_none_of_expired hstale]
      exact ⟨hstale, Bool.false_ne_true⟩

/-- At its deadline an entry is over for a read and gone with a sweep, but a deletion that
comes before the sweep still finds it. -/
theorem expired_key_deleted :
    let s := (empty ⟨some (.entries 1), none⟩ .entryTtl).after [⟨0, .set "a" ⟨#[1]⟩ 1⟩]
    (s.get 1000 "a").1 = none ∧ (s.delete "a").1 = true ∧
      ((s.cleanup 1000).2.delete "a").1 = false := by
  cbv

end Store

end CacheService
