import CacheService.Proofs.Store.History

/-!
# CacheService.Proofs.Store.Placement

Where a row is found that has just been placed. The heap tier keeps what it
admits, whatever it pushes out for it; what it does not admit goes to the
off-heap tier, unless it has expired. So a live row is found wherever some tier
admits it, and every row that is stored is such a row:

* `find?_place` — the entry under a key after its placing;
* `get_set` — what a read finds that follows a write at the same clock;
* `find?_get_of_live` — a read leaves the live entry that it finds where a later
  read finds it.
-/

namespace CacheService

/-- A lifetime that ends beyond the largest time has already ended there. -/
theorem Entry.isExpiredAt_written_self (now : UInt64) (value : ByteArray) (ttl : UInt32) :
    (written now value ttl).isExpiredAt now = false ↔ ttl = 0 ∨ now.toNat < 2 ^ 64 - 1 := by
  rw [written, live_ofTtl]
  by_cases hzero : ttl = 0
  · simp [hzero]
  · have hpos : 0 < ttl.toNat := Nat.pos_of_ne_zero fun h => hzero (UInt32.toNat_inj.mp h)
    have hbound := now.toNat_lt
    simp only [hzero, false_or]
    omega

/-- An insertion is found under its key. -/
theorem Tier.get?_insert_self (t : Tier) (key : String) (e : Entry) :
    (t.insert key e).2.get? key = some e := by
  simp [insert, get?_add]

/-- What a tier `admits` is a matter of its capacity. -/
theorem TierOf.any_admits {c : Option Capacity} {tier : Option Tier} (h : TierOf c tier)
    (footprint : Nat) : tier.any (·.admits footprint) = c.any (·.hasRoom [] footprint) := by
  cases h with
  | missing => rfl
  | present => simp [Tier.admits_eq]

namespace Store

/-- Whether some tier could hold an entry of this footprint. -/
def admits (s : Store) (footprint : Nat) : Bool :=
  s.heap.any (·.admits footprint) || s.offHeap.any (·.admits footprint)

variable {plan : CapacityPlan} {policy : ExpiryPolicy} {s : Store} {now : UInt64}
  {key : String} {e : Entry}

/-! ## Tiers that admit -/

/-- The tiers of a plan admit the same at all times. -/
theorem Valid.admits_congr {s' : Store} (hv : s.Valid plan policy) (hv' : s'.Valid plan policy)
    (footprint : Nat) : s'.admits footprint = s.admits footprint := by
  simp only [admits, hv.heap.any_admits, hv.offHeap.any_admits, hv'.heap.any_admits,
    hv'.offHeap.any_admits]

/-- What is stored is admitted by the tier that holds it. -/
theorem Valid.admits_of_mem (hv : s.Valid plan policy) (h : (key, e) ∈ s.rows) :
    s.admits (e.footprint key) = true := by
  have htier {c : Option Capacity} {tier : Option Tier} (ht : TierOf c tier)
      (hrow : (key, e) ∈ rowsOf tier) :
      tier.any (·.admits (e.footprint key)) = true := by
    cases ht with
    | missing => simp at hrow
    | @present t sound bound =>
        have hone := Capacity.allows_of_sublist (List.singleton_sublist.mpr hrow) bound
        rw [Option.any_some, Tier.admits_eq]
        exact Capacity.hasRoom_of_allows hone
  obtain hoff | hheap := List.mem_append.mp h
  · rw [admits, htier hv.offHeap hoff, Bool.or_true]
  · rw [admits, htier hv.heap hheap, Bool.true_or]

/-! ## Placing -/

/-- `demote` leaves the heap tier alone. -/
theorem heap_demote (s : Store) (now : UInt64) (key : String) (e : Entry) :
    (s.demote now key e).heap = s.heap := by
  unfold demote
  split
  · rfl
  · split <;> rfl

theorem heap_demoteAll (s : Store) (now : UInt64) (victims : List Row) :
    (victims.foldl (fun s row => s.demote now row.1 row.2) s).heap = s.heap := by
  induction victims generalizing s with
  | nil => rfl
  | cons row victims ih => exact (ih _).trans (heap_demote s now row.1 row.2)

/-- **A row that is placed** is in the heap tier if that admits it, and else in the
off-heap tier if that admits it and the row has not expired. -/
theorem find?_place (hv : s.Valid plan policy) (hnew : key ∉ s.rows.map (·.1)) (now : UInt64)
    (e : Entry) :
    (s.place now key e).find? key =
      if s.heap.any (·.admits (e.footprint key)) ∨
          e.isExpiredAt now = false ∧ s.offHeap.any (·.admits (e.footprint key)) then some e
      else none := by
  have habsent : s.find? key = none := hv.find?_eq_none.mpr hnew
  have hheap : s.heap.bind (·.get? key) = none := (Option.or_eq_none_iff.mp habsent).1
  unfold place
  split
  · next t hadm =>
      obtain ⟨htier, hadm⟩ := admitting_eq_some.mp hadm
      rw [if_pos (.inl (by simpa [htier] using hadm)), find?, heap_demoteAll]
      simp [Tier.get?_insert_self]
  · next hadm =>
      have hnone : s.heap.any (·.admits (e.footprint key)) = false := by
        cases hheap : s.heap with
        | none => rfl
        | some t => simpa [admitting, hheap] using hadm
      unfold demote
      simp only [hnone, Bool.false_eq_true, false_or]
      split
      · next hexp =>
          rw [if_neg (by simp [hexp])]
          exact habsent
      · next hlive =>
          split
          · next t hoff =>
              obtain ⟨htier, hadm⟩ := admitting_eq_some.mp hoff
              rw [if_pos ⟨by simpa using hlive, by simpa [htier] using hadm⟩, find?, hheap]
              simp [Tier.get?_insert_self]
          · next hoff =>
              have hnone : s.offHeap.any (·.admits (e.footprint key)) = false := by
                cases htier : s.offHeap with
                | none => rfl
                | some t => simpa [admitting, htier] using hoff
              rw [if_neg (by simp [hnone])]
              exact habsent

/-- A live row that is placed is found where some tier `admits` it. -/
theorem find?_place_of_live (hv : s.Valid plan policy) (hnew : key ∉ s.rows.map (·.1))
    (hlive : e.isExpiredAt now = false) :
    (s.place now key e).find? key = if s.admits (e.footprint key) then some e else none := by
  simp [find?_place hv hnew, hlive, admits]

/-! ## Writing and reading -/

/-- What is `live?` under a key after a write at the same clock. -/
theorem live?_set (hv : s.Valid plan .entryTtl) (now : UInt64) (key : String) (value : ByteArray)
    (ttl : UInt32) :
    (s.set now key value ttl).live? now key =
      if s.admits ((Entry.written now value ttl).footprint key) ∧ (ttl = 0 ∨ now.toNat < 2 ^ 64 - 1)
      then some (Entry.written now value ttl) else none := by
  obtain ⟨-, hvalid, hrows⟩ := take_spec hv key
  have hnew : key ∉ (s.take key).2.rows.map (·.1) := fresh_of_without hrows
  have hset : s.set now key value ttl =
      (s.take key).2.place now key (Entry.written now value ttl) := by
    rw [← newEntry_entryTtl (s.take key).1, ← hv.policy_eq]
    rfl
  rw [live?, hset]
  cases hexp : (Entry.written now value ttl).isExpiredAt now with
  | false =>
      rw [find?_place_of_live hvalid hnew hexp, hv.admits_congr hvalid]
      have hlifetime := (Entry.isExpiredAt_written_self now value ttl).mp hexp
      by_cases ha : s.admits ((Entry.written now value ttl).footprint key) = true
      · rw [if_pos ha, if_pos ⟨ha, hlifetime⟩]
        simp [Option.filter, hexp]
      · rw [if_neg ha, if_neg fun h => ha h.1]
        rfl
  | true =>
      have hlifetime : ¬(ttl = 0 ∨ now.toNat < 2 ^ 64 - 1) := fun h => by
        rw [(Entry.isExpiredAt_written_self now value ttl).mpr h] at hexp
        contradiction
      rw [if_neg fun h => hlifetime h.2, find?_place hvalid hnew]
      split <;> simp [hexp]

/-- **A read that follows a write** at the same clock finds the value where some tier
admits it, unless its lifetime is cut off by the largest time. -/
theorem get_set (hv : s.Valid plan .entryTtl) (now : UInt64) (key : String) (value : ByteArray)
    (ttl : UInt32) :
    ((s.set now key value ttl).get now key).1 =
      if s.admits ((Entry.written now value ttl).footprint key) ∧ (ttl = 0 ∨ now.toNat < 2 ^ 64 - 1)
      then some value else none := by
  rw [(get_spec (set_spec hv now key value ttl).1 now key).1, live?_set hv]
  split <;> rfl

/-- **A read** leaves the live entry that it finds, wherever it moves it. -/
theorem find?_get_of_live (hv : s.Valid plan .entryTtl) (he : s.live? now key = some e) :
    (s.get now key).2.find? key = some e := by
  have hsame : accessed s.policy e now = e := by rw [hv.policy_eq]; rfl
  obtain ⟨hfound, hlive⟩ := Option.filter_eq_some_iff.mp he
  have hread := readCase_get hv now key
  generalize s.get now key = r at hread
  cases hread with
  | absent hnone => simp [hfound] at hnone
  | expired he' hexp => simp_all
  | @fromHeap e' s' he' _ hv' hrows =>
      obtain rfl : e = e' := Option.some.inj (hfound.symm.trans he')
      exact hv'.find?_eq_some.mpr (by simp [hrows, hsame])
  | @fromOffHeap e' s' he' hlive' hv' hrows =>
      obtain rfl : e = e' := Option.some.inj (hfound.symm.trans he')
      have hadm := hv.admits_of_mem (hv.find?_eq_some.mp hfound)
      rw [hsame, find?_place_of_live hv' (fresh_of_without hrows) hlive', hv.admits_congr hv',
        if_pos hadm]

end Store

end CacheService
