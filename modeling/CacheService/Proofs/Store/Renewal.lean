import CacheService.Proofs.Store.Residence

/-!
# CacheService.Proofs.Store.Renewal

A cleared store behaves as a new one. Clearing keeps the next tick of either tier and
the counters, so the two stores are not equal, and their ticks never become equal. But
ticks only say in which order keys were used, so tiers with the same rows in that order
(`Tier.Alike`) are told apart by no operation, and counters only grow:

* `Tier.Alike.insert`, `Tier.Alike.removeExpired` and others — one lemma for each
  operation of a tier, carried to tiers that may be missing by `AlikeTiers.view`;
* `Alike.perform` — a call on two stores with such tiers answers the same and leaves
  such stores, whose counters stay apart by the same `base`;
* `Alike.run` — so does every run, and what is seen of the two from outside
  (`Store.Agrees`) is the same at every point;
* `cleared_as_new` — a store that has just been cleared is alike to an empty one.
-/

namespace CacheService

/-- The counters of two periods together. -/
def Tally.plus (t t' : Tally) : Tally where
  hits := t.hits + t'.hits
  misses := t.misses + t'.misses
  evictions := t.evictions + t'.evictions
  expirations := t.expirations + t'.expirations

namespace Tally

variable (t t' : Tally)

theorem plus_evict (n : Nat) : (t.plus t').evict n = t.plus (t'.evict n) := by
  simp only [plus, evict, Nat.add_assoc]

theorem plus_expire (n : Nat) : (t.plus t').expire n = t.plus (t'.expire n) := by
  simp only [plus, expire, Nat.add_assoc]

end Tally

/-! ## Tiers -/

/-- Victims after which there is room (`hasRoom`) are no fewer than victims each of
which was needed. -/
theorem Capacity.length_le_of_hasRoom {c : Capacity} {footprint : Nat}
    {victims kept victims' kept' : List Row} (hsplit : victims ++ kept = victims' ++ kept')
    (henough : c.hasRoom kept footprint = true ∨ kept = [])
    (hneeded : ∀ front back, victims' = front ++ back → back ≠ [] →
      c.hasRoom (back ++ kept') footprint = false) : victims'.length ≤ victims.length := by
  rcases List.append_eq_append_iff.mp hsplit with ⟨back, hvictims, hkept⟩ | ⟨front, hvictims, -⟩
  · -- Were any of `back` needed, there would be no room beside them, and none of them at all.
    rcases List.eq_nil_or_concat back with rfl | ⟨init, last, hback⟩
    · rw [hvictims, List.append_nil]
    · have hne : back ≠ [] := by simp [hback]
      have hfull := hneeded victims back hvictims hne
      rw [← hkept] at hfull
      rcases henough with hroom | hnil
      · simp [hroom] at hfull
      · simp [hnil, hback] at hkept
  · rw [hvictims, List.length_append]
    exact Nat.le_add_right ..

namespace Tier

/-- Two tiers that no operation tells apart. Their ticks may differ. -/
structure Alike (t t' : Tier) : Prop where
  sound : t.Sound
  sound' : t'.Sound
  capacity : t.capacity = t'.capacity
  rows : t.rows = t'.rows

variable {t t' : Tier} {key : String} {e : Entry}

/-- A tier that has been cleared is `Alike` to a new one. -/
theorem alike_clear_empty (t : Tier) (name : String) : t.clear.Alike (empty name t.capacity) where
  sound := sound_clear t
  sound' := sound_empty name t.capacity
  capacity := rfl
  rows := by rw [rows_clear, rows_empty]

namespace Alike

/-- `Alike` tiers find the same. -/
theorem get? (h : t.Alike t') (key : String) : t.get? key = t'.get? key := by
  ext e
  rw [← h.sound.mem_rows, h.rows, h.sound'.mem_rows]

theorem size (h : t.Alike t') : t.size = t'.size := by
  rw [h.sound.size_eq, h.rows, h.sound'.size_eq]

theorem usedBytes (h : t.Alike t') : t.usedBytes = t'.usedBytes := by
  rw [h.sound.bytes, h.rows, h.sound'.bytes]

theorem order (h : t.Alike t') : t.recency.toList = t'.recency.toList := by
  rw [← h.sound.keys_rows, h.rows, h.sound'.keys_rows]

/-- They admit the same. -/
theorem admits (h : t.Alike t') (footprint : Nat) : t.admits footprint = t'.admits footprint := by
  rw [admits_eq, h.capacity, admits_eq]

theorem clear (h : t.Alike t') : t.clear.Alike t'.clear where
  sound := sound_clear t
  sound' := sound_clear t'
  capacity := h.capacity
  rows := by rw [rows_clear, rows_clear]

/-- `erase` keeps tiers `Alike`. -/
theorem erase (h : t.Alike t') (key : String) : (t.erase key).Alike (t'.erase key) where
  sound := sound_erase h.sound key
  sound' := sound_erase h.sound' key
  capacity := by rw [capacity_erase, capacity_erase, h.capacity]
  rows := by rw [rows_erase h.sound, rows_erase h.sound', h.rows]

/-- A read dates the entry anew in both and makes it the last. -/
theorem touch_setDeadline (h : t.Alike t') (he : t.get? key = some e) (x : Option UInt64) :
    ((t.setDeadline key x).touch key).Alike ((t'.setDeadline key x).touch key) := by
  have he' : t'.get? key = some e := (h.get? key).symm.trans he
  refine ⟨sound_touch_setDeadline h.sound he x, sound_touch_setDeadline h.sound' he' x, ?_, ?_⟩
  · simp only [capacity_touch, capacity_setDeadline, h.capacity]
  · rw [rows_touch_setDeadline h.sound he, rows_touch_setDeadline h.sound' he', h.rows]

/-- Both push out the same rows, since each pushes out as few as make room, and stay
`Alike`. -/
theorem insert (h : t.Alike t') (key : String) (e : Entry) :
    (t.insert key e).1 = (t'.insert key e).1 ∧ (t.insert key e).2.Alike (t'.insert key e).2 := by
  have hins := inserts_insert h.sound key e
  have hins' := inserts_insert h.sound' key e
  obtain ⟨kept, hsplit, hrows, henough, hneeded⟩ := hins.rows
  obtain ⟨kept', hsplit', hrows', henough', hneeded'⟩ := hins'.rows
  rw [h.capacity] at henough hneeded
  rw [h.rows, hsplit'] at hsplit
  have hlen := (Capacity.length_le_of_hasRoom hsplit.symm henough hneeded').antisymm
    (Capacity.length_le_of_hasRoom hsplit henough' hneeded)
  obtain ⟨hvictims, hkept⟩ := List.append_inj hsplit hlen
  refine ⟨hvictims.symm, hins.sound, hins'.sound, ?_, by rw [hrows, hrows', hkept]⟩
  rw [hins.capacity, hins'.capacity, h.capacity]

/-- Both lose the same rows in a sweep, and stay `Alike`. -/
theorem removeExpired (h : t.Alike t') (now : UInt64) :
    (t.removeExpired now).1 = (t'.removeExpired now).1 ∧
      (t.removeExpired now).2.Alike (t'.removeExpired now).2 := by
  obtain ⟨hrows, hsound, hcap⟩ := rows_removeExpired h.sound now
  obtain ⟨hrows', hsound', hcap'⟩ := rows_removeExpired h.sound' now
  refine ⟨?_, hsound, hsound', by rw [hcap, hcap', h.capacity], by rw [hrows, hrows', h.rows]⟩
  show (t.expiredKeys now).length = (t'.expiredKeys now).length
  rw [length_expiredKeys h.sound, length_expiredKeys h.sound', h.rows]

end Alike

end Tier

namespace Store

/-! ## Tiers that may be missing -/

/-- Both tiers are missing, or no operation tells them apart (`Tier.Alike`). -/
abbrev AlikeTiers : Option Tier → Option Tier → Prop := Option.Rel Tier.Alike

namespace AlikeTiers

variable {tier tier' : Option Tier}

/-- What is read off two such tiers is the same. -/
theorem view {α : Type} (h : AlikeTiers tier tier') (f : Option Tier → α)
    (hf : ∀ {t t'}, t.Alike t' → f (some t) = f (some t')) : f tier = f tier' := by
  cases h with
  | none => rfl
  | some ht => exact hf ht

theorem clear (h : AlikeTiers tier tier') : AlikeTiers (tier.map .clear) (tier'.map .clear) := by
  cases h with
  | none => exact .none
  | some h => exact .some h.clear

/-- What the first admits, the second does. -/
theorem admitting (h : AlikeTiers tier tier') (footprint : Nat) :
    AlikeTiers (Store.admitting tier footprint) (Store.admitting tier' footprint) := by
  cases h with
  | none => exact .none
  | @some t t' h =>
      have hadm := h.admits footprint
      simp only [Store.admitting, Option.filter, hadm]
      split
      · exact .some h
      · exact .none

/-- Taking a key out finds the same in both. -/
theorem takeFrom (h : AlikeTiers tier tier') (key : String) :
    (Store.takeFrom tier key).1 = (Store.takeFrom tier' key).1 ∧
      AlikeTiers (Store.takeFrom tier key).2 (Store.takeFrom tier' key).2 := by
  cases h with
  | none => exact ⟨rfl, .none⟩
  | @some t t' h =>
      have hfound := h.get? key
      simp only [Store.takeFrom, Tier.remove_eq, hfound]
      cases t'.get? key with
      | none => exact ⟨rfl, .some h⟩
      | some e => exact ⟨rfl, .some (h.erase key)⟩

/-- A sweep counts the same in both. -/
theorem sweepTier (h : AlikeTiers tier tier') (now : UInt64) :
    (Store.sweepTier now tier).1 = (Store.sweepTier now tier').1 ∧
      AlikeTiers (Store.sweepTier now tier).2 (Store.sweepTier now tier').2 := by
  cases h with
  | none => exact ⟨rfl, .none⟩
  | some h => exact ⟨(h.removeExpired now).1, .some (h.removeExpired now).2⟩

end AlikeTiers

/-! ## Stores -/

/-- Two stores that no call tells apart, but for the counters in `base` that the first
started with. -/
structure Alike (base : Tally) (s s' : Store) : Prop where
  policy : s.policy = s'.policy
  heap : AlikeTiers s.heap s'.heap
  offHeap : AlikeTiers s.offHeap s'.offHeap
  tally : s.tally = base.plus s'.tally

/-- What is seen of two stores from outside is the same, but for the counters in `base`. -/
structure Agrees (base : Tally) (s s' : Store) : Prop where
  heapSize : s.heap.map Tier.size = s'.heap.map Tier.size
  offHeapSize : s.offHeap.map Tier.size = s'.offHeap.map Tier.size
  size : s.size = s'.size
  heapBytes : s.heapBytes = s'.heapBytes
  offHeapBytes : s.offHeapBytes = s'.offHeapBytes
  lookups : ∀ key, s.lookups key = s'.lookups key
  order : orderOf s.heap = orderOf s'.heap ∧ orderOf s.offHeap = orderOf s'.offHeap
  tally : s.tally = base.plus s'.tally

namespace Alike

variable {base : Tally} {s s' : Store}

/-- `demote` keeps stores `Alike`. -/
theorem demote (h : Alike base s s') (now : UInt64) (key : String) (e : Entry) :
    Alike base (s.demote now key e) (s'.demote now key e) := by
  unfold Store.demote
  split
  · exact ⟨h.policy, h.heap, h.offHeap, by rw [h.tally, Tally.plus_expire]⟩
  · have hadm := h.offHeap.admitting (e.footprint key)
    generalize Store.admitting s.offHeap (e.footprint key) = tier at hadm ⊢
    generalize Store.admitting s'.offHeap (e.footprint key) = tier' at hadm ⊢
    cases hadm with
    | none => exact ⟨h.policy, h.heap, h.offHeap, by rw [h.tally, Tally.plus_evict]⟩
    | some ht =>
        obtain ⟨hvictims, hinserted⟩ := ht.insert key e
        refine ⟨h.policy, h.heap, .some hinserted, ?_⟩
        simp only [hvictims, h.tally, Tally.plus_evict]

/-- So do several rows on their way down. -/
theorem demoteAll (h : Alike base s s') (now : UInt64) (victims : List Row) :
    Alike base (victims.foldl (fun s row => s.demote now row.1 row.2) s)
      (victims.foldl (fun s row => s.demote now row.1 row.2) s') := by
  induction victims generalizing s s' with
  | nil => exact h
  | cons row victims ih => exact ih (h.demote now row.1 row.2)

/-- `place` keeps stores `Alike`. -/
theorem place (h : Alike base s s') (now : UInt64) (key : String) (e : Entry) :
    Alike base (s.place now key e) (s'.place now key e) := by
  unfold Store.place
  have hadm := h.heap.admitting (e.footprint key)
  generalize Store.admitting s.heap (e.footprint key) = tier at hadm ⊢
  generalize Store.admitting s'.heap (e.footprint key) = tier' at hadm ⊢
  cases hadm with
  | none => exact h.demote now key e
  | some ht =>
      obtain ⟨hvictims, hinserted⟩ := ht.insert key e
      simp only [hvictims]
      apply demoteAll
      exact ⟨h.policy, .some hinserted, h.offHeap, h.tally⟩

/-- `take` finds the same in both. -/
theorem take (h : Alike base s s') (key : String) :
    (s.take key).1 = (s'.take key).1 ∧ Alike base (s.take key).2 (s'.take key).2 := by
  obtain ⟨hfound, hheap⟩ := h.heap.takeFrom key
  obtain ⟨hfound', hoff⟩ := h.offHeap.takeFrom key
  exact ⟨congrArg₂ Option.or hfound hfound', h.policy, hheap, hoff, h.tally⟩

/-! ## Calls -/

/-- A write keeps stores `Alike`. -/
theorem set (h : Alike base s s') (now : UInt64) (key : String) (value : ByteArray)
    (ttl : UInt32) : Alike base (s.set now key value ttl) (s'.set now key value ttl) := by
  obtain ⟨hfound, htaken⟩ := h.take key
  have hpolicy : (s.take key).2.policy = (s'.take key).2.policy := htaken.policy
  unfold Store.set
  simp only [hfound, hpolicy]
  exact htaken.place now key _

/-- A read of the off-heap tiers answers the same. -/
theorem getOffHeap (h : Alike base s s') (now : UInt64) (key : String) :
    (s.getOffHeap now key).1 = (s'.getOffHeap now key).1 ∧
      Alike base (s.getOffHeap now key).2 (s'.getOffHeap now key).2 := by
  obtain ⟨hfound, hoff⟩ := h.offHeap.takeFrom key
  unfold Store.getOffHeap
  generalize takeFrom s.offHeap key = taken at hfound hoff ⊢
  generalize takeFrom s'.offHeap key = taken' at hfound hoff ⊢
  obtain ⟨found, tier⟩ := taken
  obtain ⟨found', tier'⟩ := taken'
  obtain rfl : found = found' := hfound
  cases found with
  | none => exact ⟨rfl, h.policy, h.heap, h.offHeap, by rw [h.tally]; rfl⟩
  | some e =>
      dsimp only
      split
      · refine ⟨rfl, h.policy, h.heap, hoff, ?_⟩
        rw [h.tally, Tally.plus_expire]
        rfl
      · have hhit : Alike base { s with offHeap := tier, tally := s.tally.hit }
            { s' with offHeap := tier', tally := s'.tally.hit } :=
          ⟨h.policy, h.heap, hoff, by rw [h.tally]; rfl⟩
        rw [show accessed s.policy e now = accessed s'.policy e now by rw [h.policy]]
        exact ⟨rfl, hhit.place now key _⟩

/-- A read answers the same, and keeps stores `Alike`. -/
theorem get (h : Alike base s s') (now : UInt64) (key : String) :
    (s.get now key).1 = (s'.get now key).1 ∧ Alike base (s.get now key).2 (s'.get now key).2 := by
  have hdown := h.getOffHeap now key
  have hheap := h.heap
  unfold Store.get
  generalize s.heap = tier at hheap ⊢
  generalize s'.heap = tier' at hheap ⊢
  cases hheap with
  | none => exact hdown
  | @some t t' ht =>
      have hfound := ht.get? key
      cases he : t.get? key with
      | none =>
          rw [he] at hfound
          simp only [he, ← hfound]
          exact hdown
      | some e =>
          rw [he] at hfound
          simp only [he, ← hfound]
          split
          · refine ⟨rfl, h.policy, .some (ht.erase key), h.offHeap, ?_⟩
            rw [h.tally, Tally.plus_expire]
            rfl
          · rw [show accessed s.policy e now = accessed s'.policy e now by rw [h.policy]]
            exact ⟨rfl, h.policy, .some (ht.touch_setDeadline he _), h.offHeap,
              by rw [h.tally]; rfl⟩

theorem cleanup (h : Alike base s s') (now : UInt64) :
    (s.cleanup now).1 = (s'.cleanup now).1 ∧
      Alike base (s.cleanup now).2 (s'.cleanup now).2 := by
  obtain ⟨hcount, hheap⟩ := h.heap.sweepTier now
  obtain ⟨hcount', hoff⟩ := h.offHeap.sweepTier now
  have hsum : (s.cleanup now).1 = (s'.cleanup now).1 := congrArg₂ (· + ·) hcount hcount'
  refine ⟨hsum, h.policy, hheap, hoff, ?_⟩
  show s.tally.expire (s.cleanup now).1 = base.plus (s'.tally.expire (s'.cleanup now).1)
  rw [hsum, h.tally, Tally.plus_expire]

/-- **A call** answers the same on both, and leaves them `Alike`. -/
theorem perform (h : Alike base s s') (c : Call) :
    (s.perform c).1 = (s'.perform c).1 ∧ Alike base (s.perform c).2 (s'.perform c).2 := by
  obtain ⟨now, op⟩ := c
  cases op with
  | set key value ttl => exact ⟨rfl, h.set now key value ttl⟩
  | get key =>
      obtain ⟨hanswer, hafter⟩ := h.get now key
      exact ⟨congrArg Answer.value hanswer, hafter⟩
  | delete key =>
      obtain ⟨hfound, htaken⟩ := h.take key
      exact ⟨congrArg (Answer.deleted ∘ Option.isSome) hfound, htaken⟩
  | clear => exact ⟨rfl, h.policy, h.heap.clear, h.offHeap.clear, h.tally⟩
  | cleanup =>
      obtain ⟨hcount, hafter⟩ := h.cleanup now
      exact ⟨congrArg Answer.removed hcount, hafter⟩

/-- **A run** answers the same on both, and leaves them `Alike` at every point. -/
theorem run (h : Alike base s s') (calls : List Call) :
    s.answers calls = s'.answers calls ∧ Alike base (s.after calls) (s'.after calls) := by
  induction calls generalizing s s' with
  | nil => exact ⟨rfl, h⟩
  | cons c calls ih =>
      obtain ⟨hanswer, hstep⟩ := h.perform c
      obtain ⟨hanswers, hafter⟩ := ih hstep
      exact ⟨congrArg₂ List.cons hanswer hanswers, hafter⟩

/-- Stores that are `Alike` look the same from outside (`Agrees`). -/
theorem agrees (h : Alike base s s') : Agrees base s s' where
  heapSize := h.heap.view (·.map Tier.size) fun ht => congrArg some ht.size
  offHeapSize := h.offHeap.view (·.map Tier.size) fun ht => congrArg some ht.size
  size := congrArg₂ (· + ·) (h.heap.view (·.elim 0 Tier.size) Tier.Alike.size)
    (h.offHeap.view (·.elim 0 Tier.size) Tier.Alike.size)
  heapBytes := h.heap.view (·.elim 0 Tier.usedBytes) Tier.Alike.usedBytes
  offHeapBytes := h.offHeap.view (·.elim 0 Tier.usedBytes) Tier.Alike.usedBytes
  lookups key := congrArg₂ Prod.mk (h.heap.view (·.bind (·.get? key)) fun ht => ht.get? key)
    (h.offHeap.view (·.bind (·.get? key)) fun ht => ht.get? key)
  order := ⟨h.heap.view orderOf Tier.Alike.order, h.offHeap.view orderOf Tier.Alike.order⟩
  tally := h.tally

end Alike

/-! ## Clearing -/

variable {plan : CapacityPlan} {policy : ExpiryPolicy} {s : Store}

theorem alikeTiers_clear {c : Option Capacity} {tier : Option Tier} (h : TierOf c tier)
    (name : String) : AlikeTiers (tier.map .clear) (c.map (.empty name)) := by
  cases h with
  | missing => exact .none
  | present => exact .some (Tier.alike_clear_empty _ name)

/-- A store that has been cleared is `Alike` to an empty one, but for its counters. -/
theorem alike_clear_empty (hv : s.Valid plan policy) :
    Alike s.tally s.clear (empty plan policy) where
  policy := hv.policy_eq
  heap := alikeTiers_clear hv.heap "heap"
  offHeap := alikeTiers_clear hv.offHeap "off-heap"
  tally := rfl

/-- **A cleared store behaves as a new one.** After any run, on any plan and under any policy,
clear the store and let it run on beside a new store of the same plan and policy. Every call
gets the same answer from both; and after each call both have the same number of entries and
of bytes in either tier, find the same under every key and have used the keys in the same
order, and each counter of the cleared store has grown by what the new one has counted. -/
theorem cleared_as_new (plan : CapacityPlan) (policy : ExpiryPolicy) (past calls : List Call) :
    let cleared := ((empty plan policy).after past).clear
    let new := empty plan policy
    cleared.answers calls = new.answers calls ∧
      ∀ n, Agrees cleared.tally (cleared.after (calls.take n)) (new.after (calls.take n)) := by
  intro cleared new
  have hstart : Alike cleared.tally cleared new :=
    alike_clear_empty (valid_after (valid_empty plan policy) past)
  refine ⟨(hstart.run calls).1, fun n => ?_⟩
  exact (hstart.run (calls.take n)).2.agrees

end Store

end CacheService
