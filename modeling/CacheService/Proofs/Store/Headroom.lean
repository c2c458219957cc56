import CacheService.Stats
import CacheService.Proofs.Store.History

/-!
# CacheService.Proofs.Store.Headroom

A tier that could hold everything prevents all loss, whatever the size and the
kind of the other tier. If that tier is the heap tier, nothing ever leaves it.
If it is the off-heap tier, then it has room for every row on its way down, at
every point of a cascade, since what it holds and what is still to come are
together no more than everything.

* `evictions_place` — placing a row where all rows fit into one tier evicts none;
* `evictions_perform`, `kept_perform` — so no call does, and what is live stays;
* `evictions_of_fits` — nor does a run whose written rows fit after each call.
-/

namespace CacheService

instance (c : Capacity) (rows : List Row) : Decidable (c.Allows rows) :=
  match c with
  | .entries max => inferInstanceAs (Decidable (rows.length ≤ max.toNat))
  | .bytes max => inferInstanceAs (Decidable (bytesOf rows ≤ max.toNat))

/-- One of the tiers could hold all of these rows. -/
def CapacityPlan.Fits (plan : CapacityPlan) (rows : List Row) : Prop :=
  (∃ c ∈ plan.heap, c.Allows rows) ∨ ∃ c ∈ plan.offHeap, c.Allows rows

instance (plan : CapacityPlan) (rows : List Row) : Decidable (plan.Fits rows) :=
  inferInstanceAs (Decidable (_ ∨ _))

/-- Fewer rows fit, too. -/
theorem CapacityPlan.fits_of_subperm {plan : CapacityPlan} {rows rows' : List Row}
    (h : rows'.Subperm rows) : plan.Fits rows → plan.Fits rows' := by
  rintro (⟨c, hc, ha⟩ | ⟨c, hc, ha⟩)
  · exact .inl ⟨c, hc, Capacity.allows_of_subperm h ha⟩
  · exact .inr ⟨c, hc, Capacity.allows_of_subperm h ha⟩

/-- Where there is a bound there is a tier. -/
theorem TierOf.exists_of_some {c : Capacity} {tier : Option Tier} (h : TierOf (some c) tier) :
    ∃ t, tier = some t ∧ t.Sound ∧ t.capacity = c := by
  cases h with
  | @present t sound _ => exact ⟨t, rfl, sound, rfl⟩

namespace Store

variable {plan : CapacityPlan} {policy : ExpiryPolicy} {s : Store} {now : UInt64}
  {key : String} {e : Entry} {c : Capacity}

/-- What is there after a call that has `Settled` rows is among them. -/
theorem Settled.rows_subperm {before evicted expired : List Row} {tally : Tally} {s' : Store}
    (h : Settled now before tally s' evicted expired) : s'.rows.Subperm before :=
  (List.sublist_append_left ..).subperm.trans h.rows.symm.subperm

/-! ## Placing -/

/-- Rows that fit into a tier of the store fit into it beside what it holds. -/
theorem insert_of_fits {bound : Option Capacity} {tier : Option Tier} (ht : TierOf bound tier)
    (hb : bound = some c) (hnew : key ∉ (rowsOf tier).map (·.1))
    (ha : c.Allows ((key, e) :: rowsOf tier)) :
    ∃ t, tier = some t ∧ admitting tier (e.footprint key) = some t ∧ (t.insert key e).1 = [] := by
  rw [hb] at ht
  obtain ⟨t, rfl, sound, rfl⟩ := ht.exists_of_some
  obtain ⟨hadm, hnone⟩ := Tier.insert_of_allows sound hnew ha
  exact ⟨t, rfl, admitting_eq_some.mpr ⟨rfl, hadm⟩, hnone⟩

/-- `demote` evicts nothing where the off-heap tier has room for the row. -/
theorem evictions_demote {bound : Option Capacity} (hoff : TierOf bound s.offHeap)
    (hnew : key ∉ (rowsOf s.offHeap).map (·.1)) (hc : bound = some c)
    (ha : c.Allows ((key, e) :: rowsOf s.offHeap)) :
    (s.demote now key e).tally.evictions = s.tally.evictions := by
  obtain ⟨t, -, hadm, hnone⟩ := insert_of_fits hoff hc hnew ha
  unfold demote
  split
  · rfl
  · rw [hadm]
    simp only [hnone]
    rfl

/-- The whole of a cascade finds room in the off-heap tier, one row after the other. -/
theorem evictions_demoteAll (hv : s.Valid plan policy) {victims : List Row}
    (hn : ((victims ++ s.rows).map (·.1)).Nodup) (hc : plan.offHeap = some c)
    (ha : c.Allows (victims ++ s.rows)) :
    (victims.foldl (fun s row => s.demote now row.1 row.2) s).tally.evictions =
      s.tally.evictions := by
  -- What is on its way down and what the store holds are together no more than at
  -- the start, since a row that goes down leaves the first for the second.
  induction victims generalizing s with
  | nil => rfl
  | cons row victims ih =>
      have hfirst : (row :: s.rows).Sublist (row :: victims ++ s.rows) :=
        (List.sublist_append_right victims s.rows).cons_cons row
      have hoff : (rowsOf s.offHeap).Sublist s.rows := List.sublist_append_left ..
      have hnew : row.1 ∉ s.rows.map (·.1) := by
        have hrow := hn.sublist (hfirst.map (·.1))
        exact (List.nodup_cons.mp hrow).1
      obtain ⟨hvalid, evicted, expired, hone⟩ := demote_spec hv hnew now row.2
      have hrest := hone.subperm victims
      have hmore := ih hvalid (nodup_keys_of_subperm hrest hn) (Capacity.allows_of_subperm hrest ha)
      rw [List.foldl_cons, hmore]
      exact evictions_demote hv.offHeap (not_mem_tiers hnew).1 hc
        (Capacity.allows_of_sublist ((hoff.cons_cons row).trans hfirst) ha)

/-- **Placing a row** evicts nothing where all rows together fit into one tier. -/
theorem evictions_place (hv : s.Valid plan policy) (hnew : key ∉ s.rows.map (·.1))
    (hf : plan.Fits ((key, e) :: s.rows)) :
    (s.place now key e).tally.evictions = s.tally.evictions := by
  obtain ⟨c, hheap, ha⟩ | ⟨c, hoff, ha⟩ := hf
  · have hrows : (rowsOf s.heap).Sublist s.rows := List.sublist_append_right ..
    obtain ⟨t, -, hadm, hnone⟩ := insert_of_fits hv.heap hheap (not_mem_tiers hnew).2
      (Capacity.allows_of_sublist (hrows.cons_cons (key, e)) ha)
    rw [place, hadm]
    simp only [hnone, List.foldl_nil]
  · unfold place
    split
    · next t hadm =>
        obtain ⟨hvalid, hperm⟩ := insertHeap_spec hv hnew hadm
        have hn := (hperm.map (·.1)).nodup_iff.mp (List.nodup_cons.mpr ⟨hnew, hv.nodup⟩)
        exact evictions_demoteAll hvalid hn hoff (Capacity.allows_of_subperm hperm.symm.subperm ha)
    · have hrows : (rowsOf s.offHeap).Sublist s.rows := List.sublist_append_left ..
      exact evictions_demote hv.offHeap (not_mem_tiers hnew).1 hoff
        (Capacity.allows_of_sublist (hrows.cons_cons (key, e)) ha)

/-! ## Calls -/

/-- **No call evicts** where what it would leave without bounds (`intended`) fits into
one tier. -/
theorem evictions_perform (hv : s.Valid plan policy) {call : Call}
    (hf : plan.Fits (s.intended call)) :
    (s.perform call).2.tally.evictions = s.tally.evictions := by
  obtain ⟨now, op⟩ := call
  cases op with
  | set key value ttl =>
      obtain ⟨hfound, hvalid, hrows⟩ := take_spec hv key
      have hnew : key ∉ (s.take key).2.rows.map (·.1) := fresh_of_without hrows
      simp only [intended, ← hfound, ← hrows] at hf
      exact evictions_place hvalid hnew hf
  | get key =>
      have hread := readCase_get hv now key
      show (s.get now key).2.tally.evictions = _
      generalize s.get now key = r at hread
      cases hread with
      | absent he => rfl
      | expired he hexp hv' hrows htally =>
          rw [htally]
          rfl
      | fromHeap he hlive hv' hrows htally =>
          rw [htally]
          rfl
      | @fromOffHeap e s' he hlive hv' hrows htally =>
          have hnew : key ∉ s'.rows.map (·.1) := fresh_of_without hrows
          have hfound : s.live? now key = some e := by simp [live?, he, hlive]
          simp only [intended, hfound, ← hrows] at hf
          rw [evictions_place hv' hnew hf, htally]
          rfl
  | delete key => rfl
  | clear => rfl
  | cleanup => rfl

/-- What is live of the rows that are `intended`, the call leaves. -/
theorem kept_perform (hv : s.Valid plan policy) {call : Call} (hf : plan.Fits (s.intended call))
    (hmem : (key, e) ∈ s.intended call) (hlive : e.isExpiredAt call.now = false) :
    (s.perform call).2.find? key = some e := by
  obtain ⟨-, hvalid, evicted, expired, hs⟩ := perform_spec hv call
  have hsame := evictions_perform hv hf
  have hnone : evicted = [] := by
    rw [hs.tally, ← (losses_counted s call).1] at hsame
    exact List.length_eq_zero_iff.mp (Nat.add_eq_left.mp hsame)
  have hall := hs.rows.mem_iff.mp hmem
  rw [hnone, List.nil_append] at hall
  rw [hvalid.find?_eq_some]
  rcases List.mem_append.mp hall with hkept | hgone
  · exact hkept
  · have hdead := hs.dead _ hgone
    rw [hlive] at hdead
    cases hdead

/-! ## Runs -/

/-- What is standing after a call: what it writes, and the other rows that it does not
delete or clear, whatever their deadlines. -/
def stand (rows : List Row) (call : Call) : List Row :=
  match call.op with
  | .set key value ttl => (key, .written call.now value ttl) :: without key rows
  | .delete key => without key rows
  | .clear => []
  | .get _ | .cleanup => rows

/-- After each call of a run, what has been written and not deleted or cleared since
(`stand`), each key with its last entry, would fit into one of the tiers. -/
def FitsThrough (plan : CapacityPlan) : (rows : List Row) → List Call → Prop
  | _, [] => True
  | rows, call :: calls =>
    plan.Fits (stand rows call) ∧ FitsThrough plan (stand rows call) calls

instance decidableFitsThrough (plan : CapacityPlan) :
    (rows : List Row) → (calls : List Call) → Decidable (FitsThrough plan rows calls)
  | _, [] => inferInstanceAs (Decidable True)
  | rows, call :: calls =>
    have := decidableFitsThrough plan (stand rows call) calls
    inferInstanceAs (Decidable (_ ∧ _))

/-- Under `entryTtl`, what a call would leave without bounds is standing after it. -/
theorem intended_subperm (hv : s.Valid plan .entryTtl) {rows : List Row}
    (h : s.rows.Subperm rows) (call : Call) : (s.intended call).Subperm (stand rows call) := by
  have hwithout : ∀ key, (without key s.rows).Subperm (without key rows) :=
    fun key => h.filter _
  obtain ⟨now, op⟩ := call
  cases op with
  | set key value ttl =>
      simp only [intended, stand, hv.policy_eq, newEntry_entryTtl]
      exact (List.subperm_cons _).mpr (hwithout key)
  | get key =>
      cases hlive : s.live? now key with
      | none => simpa only [intended, stand, hlive] using h
      | some e =>
          have hfound : s.find? key = some e := (Option.filter_eq_some_iff.mp hlive).1
          have hperm := perm_cons_without hv.nodup (hv.find?_eq_some.mp hfound)
          simp only [intended, stand, hlive, hv.policy_eq]
          exact hperm.symm.subperm.trans h
  | delete key => exact hwithout key
  | clear => exact List.Subperm.refl []
  | cleanup => exact h

/-- The entries that a call is to leave under their keys: the one that it writes,
and those that were there and that it does not overwrite. -/
def Leaves (s : Store) (call : Call) (key : String) (e : Entry) : Prop :=
  (∃ value ttl, call.op = .set key value ttl ∧ e = .written call.now value ttl) ∨
    (s.find? key = some e ∧ ¬ call.op.Overwrites key)

/-- What a call is to leave is `intended`. -/
theorem mem_intended_of_leaves (hv : s.Valid plan .entryTtl) {call : Call}
    (h : s.Leaves call key e) : (key, e) ∈ s.intended call := by
  obtain ⟨now, op⟩ := call
  rcases h with ⟨value, ttl, rfl, rfl⟩ | ⟨hfound, hkeep⟩
  · simp only [intended, hv.policy_eq, newEntry_entryTtl]
    exact List.mem_cons_self
  · have hmem := hv.find?_eq_some.mp hfound
    cases op with
    | set key' value ttl =>
        exact List.mem_cons_of_mem _ (mem_without.mpr ⟨hmem, Ne.symm hkeep⟩)
    | get key' =>
        simp only [intended]
        split
        · next e' hlive =>
            have hfound' : s.find? key' = some e' := (Option.filter_eq_some_iff.mp hlive).1
            have hperm := perm_cons_without hv.nodup (hv.find?_eq_some.mp hfound')
            rw [hv.policy_eq]
            exact hperm.mem_iff.mp hmem
        · exact hmem
    | delete key' => exact mem_without.mpr ⟨hmem, Ne.symm hkeep⟩
    | clear => exact absurd trivial hkeep
    | cleanup => exact hmem

/-- `evictions_of_fits` for a run that starts with no more than what is standing. -/
theorem run_of_fits (hv : s.Valid plan .entryTtl) {rows : List Row} (h : s.rows.Subperm rows)
    {calls : List Call} (hfits : FitsThrough plan rows calls) :
    (∀ before later, calls = before ++ later →
      (s.after before).tally.evictions = s.tally.evictions) ∧
    ∀ before call later, calls = before ++ call :: later → ∀ key e,
      (s.after before).Leaves call key e → e.isExpiredAt call.now = false →
      ((s.after before).perform call).2.find? key = some e := by
  induction calls generalizing s rows with
  | nil =>
      constructor
      · intro before later hsplit
        rw [(List.append_eq_nil_iff.mp hsplit.symm).1]
        rfl
      · intro before call later hsplit
        simp at hsplit
  | cons call calls ih =>
      have hintended := intended_subperm hv h call
      have hroom := CapacityPlan.fits_of_subperm hintended hfits.1
      obtain ⟨-, hvalid, evicted, expired, hs⟩ := perform_spec hv call
      obtain ⟨hnone, hkept⟩ := ih hvalid (hs.rows_subperm.trans hintended) hfits.2
      constructor
      · intro before later hsplit
        cases before with
        | nil => rfl
        | cons first before =>
            rw [List.cons_append, List.cons.injEq] at hsplit
            obtain ⟨rfl, hsplit⟩ := hsplit
            rw [after_cons, hnone before later hsplit, evictions_perform hv hroom]
      · intro before call' later hsplit key e hleaves hlive
        cases before with
        | nil =>
            rw [List.nil_append, List.cons.injEq] at hsplit
            obtain ⟨rfl, -⟩ := hsplit
            exact kept_perform hv hroom (mem_intended_of_leaves hv hleaves) hlive
        | cons first before =>
            rw [List.cons_append, List.cons.injEq] at hsplit
            obtain ⟨rfl, hsplit⟩ := hsplit
            exact hkept before call' later hsplit key e hleaves hlive

/-- **A tier that could hold everything prevents all loss.** Take a run from an
empty store, on clocks that move as they like, after each call of which one of
the tiers could hold all that is standing. Then nothing is ever evicted, and
each call leaves in place every entry that is live when it reads the clock, the
one that it writes and all that it does not overwrite. -/
theorem evictions_of_fits (plan : CapacityPlan) (calls : List Call)
    (hfits : FitsThrough plan [] calls) :
    (∀ before later, calls = before ++ later →
      ((empty plan .entryTtl).after before).stats.evictions = 0) ∧
    ∀ before call later, calls = before ++ call :: later →
      let s := (empty plan .entryTtl).after before
      ∀ key e, s.Leaves call key e → e.isExpiredAt call.now = false →
        (s.perform call).2.find? key = some e := by
  have hstart : (empty plan .entryTtl).rows.Subperm [] := by rw [rows_empty]
  exact run_of_fits (valid_empty plan .entryTtl) hstart hfits

/-- A heap tier bounded in bytes and an off-heap tier bounded in entries. The
third write pushes two rows down at once, and the read of one of them then
changes places with the third row. -/
theorem evictions_of_fits_cascade :
    let plan : CapacityPlan := ⟨some (.bytes 132), some (.entries 3)⟩
    let calls : List Call := [⟨5, .set "a" ⟨#[1]⟩ 0⟩, ⟨3, .set "b" ⟨#[2]⟩ 9⟩,
      ⟨7, .set "c" ⟨#[3, 3, 3]⟩ 0⟩, ⟨6, .get "a"⟩]
    ((empty plan .entryTtl).after calls).stats.evictions = 0 ∧
      ((empty plan .entryTtl).after calls).find? "c" = some (.written 7 ⟨#[3, 3, 3]⟩ 0) := by
  intro plan calls
  have hfits : FitsThrough plan [] calls := of_decide_eq_true (by cbv)
  obtain ⟨hnone, hkept⟩ := evictions_of_fits plan calls hfits
  refine ⟨hnone calls [] (List.append_nil calls).symm, ?_⟩
  refine hkept (calls.take 3) ⟨6, .get "a"⟩ [] rfl "c" _ (.inr ⟨by cbv, ?_⟩) (by cbv)
  exact id

end Store

end CacheService
