import CacheService.Backend
import CacheService.Proofs.Store.Headroom
import CacheService.Proofs.Store.Residence
import CacheService.Remote.Server

/-!
# CacheService.Proofs.Store.Batch

A batch read of the local store is one read after the other. Each of them may bring an
entry up from the off-heap tier, and what then has to go down may find no place there. So
the batch returns what was live when it began, except for the keys whose entries earlier
keys of the batch have pushed out; and such losses are counted.

* `drops_getMany` — what a batch takes out of a store, it has evicted or it had expired;
* `mem_getMany` — a key is returned if its entry is still there when its turn comes;
* `evictions_get` — the stores in which a read pushes out nothing;
* `batch_read` — what a batch returns, what it misses, and when it is a snapshot.
-/

namespace CacheService

open Remote (Found Network)

namespace Store

variable {plan : CapacityPlan} {policy : ExpiryPolicy} {s s' s'' : Store} {now : UInt64}
  {key : String} {e : Entry} {c : Capacity} {evicted expired evicted' expired' : List Row}

/-! ## What reads take out -/

/-- Reads have left of `s` the rows of `s'`. What they have taken out they have counted as
evicted, or it had expired. -/
structure Drops (now : UInt64) (s : Store) (evicted expired : List Row) (s' : Store) : Prop where
  rows : s.rows.Perm (s'.rows ++ (evicted ++ expired))
  count : s'.tally.evictions = s.tally.evictions + evicted.length
  dead : ∀ row ∈ expired, row.2.isExpiredAt now = true

/-- Nothing is dropped where nothing is read. -/
theorem drops_nil (now : UInt64) (s : Store) : Drops now s [] [] s := ⟨by simp, rfl, nofun⟩

/-- What reads drop in turn, they drop together. -/
theorem Drops.trans (h : Drops now s evicted expired s') (h' : Drops now s' evicted' expired' s'') :
    Drops now s (evicted ++ evicted') (expired ++ expired') s'' := by
  refine ⟨?_, ?_, fun row hrow => (List.mem_append.mp hrow).elim (h.dead row) (h'.dead row)⟩
  · have hrows := h.rows
    have hrows' := h'.rows
    rw [List.perm_iff_count] at hrows hrows' ⊢
    intro row
    have hcount := hrows row
    have hcount' := hrows' row
    simp only [List.count_append] at hcount hcount' ⊢
    omega
  · rw [h'.count, h.count, List.length_append, Nat.add_assoc]

/-- Under `entryTtl`, a read leaves what it finds. -/
theorem drops_get (hv : s.Valid plan .entryTtl) (now : UInt64) (key : String) :
    ∃ evicted expired, Drops now s evicted expired (s.get now key).2 := by
  obtain ⟨-, -, -, evicted, expired, hs⟩ := get_spec hv now key
  refine ⟨evicted, expired, ?_, ?_, fun row hrow => hs.dead row hrow⟩
  · have hperm := hs.rows
    simp only [intended] at hperm
    cases hlive : s.live? now key with
    | none => rwa [hlive] at hperm
    | some e =>
        have hfound : s.find? key = some e := (Option.filter_eq_some_iff.mp hlive).1
        rw [hlive, hv.policy_eq] at hperm
        exact (perm_cons_without hv.nodup (hv.find?_eq_some.mp hfound)).trans hperm
  · rw [hs.tally, ← (losses_counted s ⟨now, .get key⟩).1]
    rfl

/-- **A batch** drops what its reads drop, and leaves the store `Valid`. -/
theorem drops_getMany (hv : s.Valid plan .entryTtl) (now : UInt64) (keys : List String) :
    (s.getMany now keys).2.Valid plan .entryTtl ∧
      ∃ evicted expired, Drops now s evicted expired (s.getMany now keys).2 := by
  induction keys generalizing s with
  | nil => exact ⟨hv, [], [], drops_nil now s⟩
  | cons key keys ih =>
      obtain ⟨-, hv', -⟩ := get_spec hv now key
      obtain ⟨evicted, expired, hone⟩ := drops_get hv now key
      obtain ⟨hv'', evicted', expired', hmore⟩ := ih hv'
      rw [getMany_cons]
      exact ⟨hv'', _, _, hone.trans hmore⟩

/-- What is still there was there, as it is. -/
theorem Drops.find?_eq_some (h : Drops now s evicted expired s') (hv : s.Valid plan policy)
    (hv' : s'.Valid plan policy) (he : s'.find? key = some e) : s.find? key = some e := by
  rw [hv'.find?_eq_some] at he
  rw [hv.find?_eq_some]
  exact h.rows.mem_iff.mpr (List.mem_append_left _ he)

/-- A live entry that is no longer there has been evicted. -/
theorem Drops.mem_evicted (h : Drops now s evicted expired s') (hv : s.Valid plan policy)
    (hv' : s'.Valid plan policy) (he : s.live? now key = some e) (hgone : s'.find? key = none) :
    (key, e) ∈ evicted := by
  obtain ⟨hfound, hlive⟩ := Option.filter_eq_some_iff.mp he
  have hrow := h.rows.mem_iff.mp (hv.find?_eq_some.mp hfound)
  rcases List.mem_append.mp hrow with hkept | hlost
  · exact absurd (List.mem_map_of_mem (f := (·.1)) hkept) (hv'.find?_eq_none.mp hgone)
  · rcases List.mem_append.mp hlost with hevicted | hexpired
    · exact hevicted
    · simp [h.dead _ hexpired] at hlive

/-! ## What a batch finds -/

/-- An entry that is live in what reads have left, is a live entry that they have left. -/
theorem Drops.live?_eq_some (h : Drops now s evicted expired s') (hv : s.Valid plan policy)
    (hv' : s'.Valid plan policy) :
    s'.live? now key = some e ↔ s.live? now key = some e ∧ s'.find? key = some e := by
  simp only [live?, Option.filter_eq_some_iff]
  constructor
  · rintro ⟨hleft, hlive⟩
    exact ⟨⟨h.find?_eq_some hv hv' hleft, hlive⟩, hleft⟩
  · rintro ⟨⟨-, hlive⟩, hleft⟩
    exact ⟨hleft, hlive⟩

/-- `getMany` returns the values of the keys that are `live?` when their turn comes. -/
theorem mem_getMany (hv : s.Valid plan .entryTtl) (now : UInt64) (keys : List String)
    (kv : String × ByteArray) :
    kv ∈ (s.getMany now keys).1 ↔ ∃ earlier later e, keys = earlier ++ kv.1 :: later ∧
      (s.getMany now earlier).2.live? now kv.1 = some e ∧ e.value = kv.2 := by
  induction keys generalizing s with
  | nil => simp [getMany]
  | cons key keys ih =>
      obtain ⟨hanswer, hv', -⟩ := get_spec hv now key
      rw [getMany_cons, List.mem_append, ih hv', hanswer]
      constructor
      · rintro (hfirst | ⟨earlier, later, e, rfl, hlive, hvalue⟩)
        · rw [List.mem_map] at hfirst
          obtain ⟨value, hvalue, rfl⟩ := hfirst
          obtain ⟨e, hlive, rfl⟩ := Option.map_eq_some_iff.mp (Option.mem_toList.mp hvalue)
          exact ⟨[], keys, e, rfl, hlive, rfl⟩
        · exact ⟨key :: earlier, later, e, rfl, by rwa [getMany_cons], hvalue⟩
      · rintro ⟨_ | ⟨first, earlier⟩, later, e, hsplit, hlive, hvalue⟩
        · rw [List.nil_append, List.cons.injEq] at hsplit
          obtain ⟨rfl, rfl⟩ := hsplit
          left
          rw [show s.live? now kv.1 = some e from hlive, Option.map_some, hvalue]
          simp
        · rw [List.cons_append, List.cons.injEq] at hsplit
          obtain ⟨rfl, rfl⟩ := hsplit
          rw [getMany_cons] at hlive
          exact .inr ⟨earlier, later, e, rfl, hlive, hvalue⟩

/-- The same in terms of the store that the batch begins with. -/
theorem mem_getMany_of_start (hv : s.Valid plan .entryTtl) (now : UInt64) (keys : List String)
    (kv : String × ByteArray) :
    kv ∈ (s.getMany now keys).1 ↔ ∃ earlier later e, keys = earlier ++ kv.1 :: later ∧
      s.live? now kv.1 = some e ∧ e.value = kv.2 ∧
      (s.getMany now earlier).2.find? kv.1 = some e := by
  rw [mem_getMany hv]
  refine exists_congr fun earlier => exists_congr fun later => exists_congr fun e => ?_
  obtain ⟨hv', evicted, expired, hdrops⟩ := drops_getMany hv now earlier
  rw [hdrops.live?_eq_some hv hv', and_assoc, and_comm (a := e.value = kv.2)]

/-- What a batch does not find under a listed key, it leaves no entry of. -/
theorem find?_getMany_of_missed (hv : s.Valid plan .entryTtl) {keys : List String}
    (hlisted : key ∈ keys) (hlive : s.live? now key = some e)
    (hmissed : (key, e.value) ∉ (s.getMany now keys).1) :
    (s.getMany now keys).2.find? key = none := by
  obtain ⟨earlier, later, rfl⟩ := List.append_of_mem hlisted
  obtain ⟨hv', evicted, expired, hdrops⟩ := drops_getMany hv now earlier
  obtain ⟨hv'', evicted', expired', hdrops'⟩ := drops_getMany hv' now (key :: later)
  rw [mem_getMany_of_start hv] at hmissed
  rw [getMany_append, Option.eq_none_iff_forall_ne_some]
  intro e' hleft
  -- an entry that is left was there at its turn, and so from the start
  have hturn := hdrops'.find?_eq_some hv' hv'' hleft
  have hstart := hdrops.find?_eq_some hv hv' hturn
  obtain rfl : e = e' := by
    have hfound := (Option.filter_eq_some_iff.mp hlive).1
    exact Option.some.inj (hfound.symm.trans hstart)
  exact hmissed ⟨earlier, later, e, rfl, hlive, rfl, hturn⟩

/-- Each listed key that is live at the start and not found has cost an eviction. -/
theorem evictions_of_missed (hv : s.Valid plan .entryTtl) {keys missed : List String}
    (hn : missed.Nodup) (hmissed : ∀ key ∈ missed, key ∈ keys ∧ ∃ e, s.live? now key = some e ∧
      (key, e.value) ∉ (s.getMany now keys).1) :
    s.tally.evictions + missed.length ≤ (s.getMany now keys).2.tally.evictions := by
  obtain ⟨hv', evicted, expired, hdrops⟩ := drops_getMany hv now keys
  have hsub : missed ⊆ evicted.map (·.1) := by
    intro key hkey
    obtain ⟨hlisted, e, hlive, hnot⟩ := hmissed key hkey
    have hgone := find?_getMany_of_missed hv hlisted hlive hnot
    exact List.mem_map_of_mem (f := (·.1)) (hdrops.mem_evicted hv hv' hlive hgone)
  have hle := (hn.subperm hsub).length_le
  rw [List.length_map] at hle
  rw [hdrops.count]
  exact Nat.add_le_add_left hle _

/-- **A batch that evicts nothing** finds every listed key that is live at the start. -/
theorem mem_getMany_of_unevicted (hv : s.Valid plan .entryTtl) {keys : List String}
    (hsame : (s.getMany now keys).2.tally.evictions = s.tally.evictions) (kv : String × ByteArray) :
    kv ∈ (s.getMany now keys).1 ↔
      kv.1 ∈ keys ∧ ∃ e, s.live? now kv.1 = some e ∧ e.value = kv.2 := by
  constructor
  · intro hfound
    rw [mem_getMany_of_start hv] at hfound
    obtain ⟨earlier, later, e, hkeys, hlive, hvalue, -⟩ := hfound
    exact ⟨by simp [hkeys], e, hlive, hvalue⟩
  · obtain ⟨key, value⟩ := kv
    rintro ⟨hlisted, e, hlive, rfl⟩
    by_contra hnot
    have hmissed : ∀ key' ∈ [key], key' ∈ keys ∧ ∃ e, s.live? now key' = some e ∧
        (key', e.value) ∉ (s.getMany now keys).1 := by
      simpa using ⟨hlisted, e, hlive, hnot⟩
    have hlost := evictions_of_missed hv (List.nodup_singleton key) hmissed
    rw [List.length_singleton] at hlost
    exact absurd hsame (Nat.ne_of_gt hlost)

end Store

/-! ## The stores that reads leave whole -/

/-- Reads of a store of these rows push out nothing: it has one tier, or both are
bounded in entries, or all the rows fit into one of them. -/
def CapacityPlan.KeepsOnReads (plan : CapacityPlan) (rows : List Row) : Prop :=
  plan.heap = none ∨ plan.offHeap = none ∨ (∃ heap offHeap, plan = entryPlan heap offHeap) ∨
    plan.Fits rows

/-- `KeepsOnReads` holds of fewer rows, too. -/
theorem CapacityPlan.keepsOnReads_of_subperm {plan : CapacityPlan} {rows rows' : List Row}
    (h : rows'.Subperm rows) (hkeeps : plan.KeepsOnReads rows) : plan.KeepsOnReads rows' :=
  hkeeps.imp_right (·.imp_right (·.imp_right (fits_of_subperm h)))

namespace Store

variable {plan : CapacityPlan} {policy : ExpiryPolicy} {s s' : Store} {now : UInt64}
  {key : String} {e : Entry} {c : Capacity} {evicted expired : List Row}

/-- An off-heap tier has room for a row that has been taken out of it. -/
theorem allows_takenOut (hv : s.Valid plan policy) (hout : TakenOut plan policy key s s')
    (hin : (key, e) ∈ rowsOf s.offHeap) :
    ∃ c, plan.offHeap = some c ∧ c.Allows ((key, e) :: rowsOf s'.offHeap) := by
  have hn : ((rowsOf s.offHeap).map (·.1)).Nodup :=
    hv.nodup.sublist ((List.sublist_append_left (rowsOf s.offHeap) (rowsOf s.heap)).map (·.1))
  have hperm := perm_cons_without hn hin
  rw [hout.offHeap]
  have hoff := hv.offHeap
  generalize hc : plan.offHeap = bound at hoff
  generalize s.offHeap = tier at hoff hin hperm
  cases hoff with
  | missing => cases hin
  | present _ hbound => exact ⟨_, rfl, Capacity.allows_of_subperm hperm.symm.subperm hbound⟩

/-- Of two tiers bounded in entries, the heap tier takes one row and passes on at most one,
for which there is room below in place of the one that has come up. -/
theorem evictions_place_entries {heap offHeap : Option UInt64}
    (hv : s.Valid (entryPlan heap offHeap) policy) (hnew : key ∉ s.rows.map (·.1))
    (hc : (entryPlan heap offHeap).offHeap = some c)
    (ha : c.Allows ((key, e) :: rowsOf s.offHeap)) :
    (s.place now key e).tally.evictions = s.tally.evictions := by
  have hroom (row : Row) : c.Allows (row :: rowsOf s.offHeap) := by
    obtain ⟨max, -, rfl⟩ := Option.map_eq_some_iff.mp hc
    exact ha
  unfold place
  rcases hv.heap.entries_cases (e.footprint key) with
    ⟨-, -, hadm⟩ | ⟨t, max, htier, sound, hbound, hmax, hpos, hadm⟩
  · rw [hadm]
    exact evictions_demote hv.offHeap (not_mem_tiers hnew).1 hc ha
  · have hle := hv.heap.length_le_slots
    have hfresh := (not_mem_tiers hnew).2
    rw [htier, rowsOf_some] at hle hfresh
    have hvictims := (Tier.insert_entries sound hbound (by omega) hfresh e).1
    have hexcess : t.rows.length + 1 - max.toNat ≤ 1 := by omega
    rw [hadm]
    simp only [hvictims]
    rcases Nat.le_one_iff_eq_zero_or_eq_one.mp hexcess with hzero | hone
    · rw [hzero]
      rfl
    · obtain ⟨row, rest, hrows⟩ := List.exists_cons_of_length_pos (l := t.rows) (by omega)
      have hrow : row.1 ∉ (rowsOf s.offHeap).map (·.1) := by
        apply hv.disjoint
        rw [htier, rowsOf_some, hrows]
        exact List.mem_cons_self
      rw [hone, hrows]
      exact evictions_demote (s := { s with heap := some (t.insert key e).2 }) hv.offHeap hrow hc
        (hroom row)

/-- An entry that is brought up from the off-heap tier pushes out nothing where the
store `KeepsOnReads`. -/
theorem evictions_place_promoted (hv : s.Valid plan policy) (hout : TakenOut plan policy key s s')
    (hin : (key, e) ∈ rowsOf s.offHeap) (hkeeps : plan.KeepsOnReads s.rows) :
    (s'.place now key e).tally.evictions = s'.tally.evictions := by
  obtain ⟨c, hc, ha⟩ := allows_takenOut hv hout hin
  have hfresh := hout.fresh
  rcases hkeeps with hnone | hnone | ⟨heap, offHeap, rfl⟩ | hfits
  · have hheap : s'.heap = none := by
      have hheap := hout.valid.heap
      rw [hnone] at hheap
      generalize s'.heap = tier at hheap
      cases hheap
      rfl
    rw [place, hheap]
    exact evictions_demote hout.valid.offHeap (not_mem_tiers hfresh).1 hc ha
  · rw [hnone] at hc
    cases hc
  · exact evictions_place_entries hout.valid hfresh hc ha
  · refine evictions_place hout.valid hfresh (CapacityPlan.fits_of_subperm ?_ hfits)
    have hmem : (key, e) ∈ s.rows := List.mem_append_left _ hin
    have hrest : s'.rows = without key s.rows := by
      rw [rows, hout.heap, hout.offHeap, without_rows]
    rw [hrest]
    exact (perm_cons_without hv.nodup hmem).symm.subperm

/-- **A read** of a store that `KeepsOnReads` evicts nothing. -/
theorem evictions_get (hv : s.Valid plan .entryTtl) (hkeeps : plan.KeepsOnReads s.rows)
    (now : UInt64) (key : String) : (s.get now key).2.tally.evictions = s.tally.evictions := by
  have hbelow : (s.getOffHeap now key).2.tally.evictions = s.tally.evictions := by
    unfold getOffHeap
    rcases htaken : takeFrom s.offHeap key with ⟨_ | e, offHeap⟩
    · rfl
    · dsimp only
      split
      · rfl
      · have hfound := (hv.offHeap.takeFrom key).1
        rw [htaken] at hfound
        have hin : (key, e) ∈ rowsOf s.offHeap := hv.offHeap.mem_rows.mpr hfound.symm
        have hsame : accessed s.policy e now = e := by rw [hv.policy_eq]; rfl
        rw [hsame]
        exact evictions_place_promoted hv (takenOut_offHeap hv htaken s.tally.hit) hin hkeeps
  unfold get
  split
  · exact hbelow
  · split
    · exact hbelow
    · split <;> rfl

/-- Reads add no rows. -/
theorem Drops.subperm (h : Drops now s evicted expired s') : s'.rows.Subperm s.rows :=
  (List.sublist_append_left ..).subperm.trans h.rows.symm.subperm

/-- **A batch** evicts nothing there, either. -/
theorem evictions_getMany (hv : s.Valid plan .entryTtl) (hkeeps : plan.KeepsOnReads s.rows)
    (now : UInt64) (keys : List String) :
    (s.getMany now keys).2.tally.evictions = s.tally.evictions := by
  induction keys generalizing s with
  | nil => rfl
  | cons key keys ih =>
      obtain ⟨-, hv', -⟩ := get_spec hv now key
      obtain ⟨evicted, expired, hdrops⟩ := drops_get hv now key
      rw [getMany_cons, ih hv' (CapacityPlan.keepsOnReads_of_subperm hdrops.subperm hkeeps),
        evictions_get hv hkeeps]

end Store

/-! ## The local backend -/

/-- Pairs in which each key has one value, put into a table. -/
theorem getElem?_foldl_insert (value? : String → Option ByteArray)
    {pairs : List (String × ByteArray)} (hvalue : ∀ kv ∈ pairs, value? kv.1 = some kv.2)
    (found : Found) (key : String) :
    (pairs.foldl (fun found kv => found.insert kv.1 kv.2) found)[key]? =
      if key ∈ pairs.map (·.1) then value? key else found[key]? := by
  induction pairs generalizing found with
  | nil => simp
  | cons kv pairs ih =>
      rw [List.foldl_cons, ih fun kv' hkv' => hvalue kv' (List.mem_cons_of_mem _ hkv')]
      by_cases hlater : key ∈ pairs.map (·.1)
      · simp [hlater]
      · by_cases hkey : kv.1 = key
        · simp [hlater, hkey, ← hvalue kv List.mem_cons_self]
        · simp [hlater, hkey, Ne.symm hkey, Std.TreeMap.getElem?_insert]

/-- What a batch puts into its answer is what is found under the key. -/
theorem Store.found_getMany {plan : CapacityPlan} {s : Store} (hv : s.Valid plan .entryTtl)
    (now : UInt64) (keys : List String) (key : String) (value : ByteArray) :
    ((s.getMany now keys).1.foldl (fun found kv => found.insert kv.1 kv.2) ({} : Found))[key]? =
      some value ↔ (key, value) ∈ (s.getMany now keys).1 := by
  have hvalue : ∀ kv ∈ (s.getMany now keys).1, (s.live? now kv.1).map (·.value) = some kv.2 := by
    intro kv hkv
    obtain ⟨-, -, e, -, hlive, hvalue, -⟩ := (mem_getMany_of_start hv now keys kv).mp hkv
    rw [hlive, Option.map_some, hvalue]
  rw [getElem?_foldl_insert (fun key => (s.live? now key).map (·.value)) hvalue]
  constructor
  · intro hfound
    split at hfound
    · next hmem =>
        obtain ⟨kv, hkv, rfl⟩ := List.mem_map.mp hmem
        rw [hvalue kv hkv, Option.some.injEq] at hfound
        rwa [← hfound]
    · simp at hfound
  · intro hmem
    rw [if_pos (List.mem_map_of_mem (f := (·.1)) hmem), hvalue (key, value) hmem]

open Store in
/-- **A batch read** of the local backend, after any run of its store, at any clock and for
any keys. It returns those keys with their values that were live when it began and had not
been pushed out when their turn came. A listed live key that it misses has left the store
and was counted as evicted, one eviction for each. So a batch that evicts nothing is a
snapshot: it returns all the listed keys that were live when it began, in whatever order
they are listed; and it evicts nothing in a store that keeps its rows on reads. -/
theorem Backend.batch_read {σ : Type} [Network σ] (plan : CapacityPlan) (past : List Store.Call)
    (w : World σ) (keys : List String) :
    let s := (empty plan .entryTtl).after past
    ∃ (found : Found) (s' : Store),
      (Backend.localTiers (some s)).getMany w keys = (.ok found, .localTiers (some s'), w) ∧
      (∀ key value, found[key]? = some value ↔ ∃ earlier later e, keys = earlier ++ key :: later ∧
        s.live? w.now key = some e ∧ e.value = value ∧
        (s.getMany w.now earlier).2.find? key = some e) ∧
      (∀ missed : List String, missed.Nodup →
        (∀ key ∈ missed, key ∈ keys ∧ (s.live? w.now key).isSome ∧ found[key]? = none) →
        (∀ key ∈ missed, s'.find? key = none) ∧
          s.stats.evictions + missed.length ≤ s'.stats.evictions) ∧
      (s'.stats.evictions = s.stats.evictions → ∀ key, found[key]? =
        if key ∈ keys then (s.live? w.now key).map (·.value) else none) ∧
      (plan.KeepsOnReads s.rows → s'.stats.evictions = s.stats.evictions) := by
  intro s
  have hv : s.Valid plan .entryTtl := valid_after (valid_empty plan .entryTtl) past
  have hfound := found_getMany hv w.now keys
  refine ⟨_, (s.getMany w.now keys).2, rfl, ?_, ?_, ?_,
    fun hkeeps => evictions_getMany hv hkeeps w.now keys⟩
  · intro key value
    rw [hfound, mem_getMany_of_start hv]
  · intro missed hn hmissed
    have hlost : ∀ key ∈ missed, key ∈ keys ∧ ∃ e, s.live? w.now key = some e ∧
        (key, e.value) ∉ (s.getMany w.now keys).1 := by
      intro key hkey
      obtain ⟨hlisted, hlive, hnone⟩ := hmissed key hkey
      obtain ⟨e, hlive⟩ := Option.isSome_iff_exists.mp hlive
      refine ⟨hlisted, e, hlive, fun hmem => ?_⟩
      rw [(hfound key e.value).mpr hmem] at hnone
      cases hnone
    refine ⟨fun key hkey => ?_, evictions_of_missed hv hn hlost⟩
    obtain ⟨hlisted, e, hlive, hnot⟩ := hlost key hkey
    exact find?_getMany_of_missed hv hlisted hlive hnot
  · intro hsame key
    ext value
    rw [hfound, mem_getMany_of_unevicted hv hsame, Option.ite_none_right_eq_some,
      Option.map_eq_some_iff]

open Store in
/-- Two tiers of one entry each change places with every read of this batch and lose
nothing. A heap tier of one entry over an off-heap tier that is too small for what the heap
tier holds: the batch that begins below loses the entry above, and counts it. -/
theorem Backend.batch_read_promoting :
    let w : World Remote.ServerFarm := { clock := 5, network := { servers := [] } }
    let s := (empty (entryPlan (some 1) (some 1)) .entryTtl).after
      [⟨0, .set "a" ⟨#[1]⟩ 0⟩, ⟨1, .set "b" ⟨#[2]⟩ 9⟩]
    let s' := (empty ⟨some (.entries 1), some (.bytes 70)⟩ .entryTtl).after
      [⟨0, .set "b" ⟨#[2]⟩ 9⟩, ⟨1, .set "a" ⟨#[1, 1, 1, 1, 1, 1]⟩ 0⟩]
    (∃ found s'', (Backend.localTiers (some s)).getMany w ["a", "b", "a"] =
        (.ok found, .localTiers (some s''), w) ∧
      found["a"]? = some ⟨#[1]⟩ ∧ found["b"]? = some ⟨#[2]⟩ ∧ found["c"]? = none) ∧
    ∃ found s'', (Backend.localTiers (some s')).getMany w ["b", "a"] =
        (.ok found, .localTiers (some s''), w) ∧
      s''.find? "a" = none ∧ s'.stats.evictions + 1 ≤ s''.stats.evictions := by
  intro w s s'
  constructor
  · obtain ⟨found, s'', hread, -, -, hsnapshot, hkeeps⟩ := batch_read
      (entryPlan (some 1) (some 1)) [⟨0, .set "a" ⟨#[1]⟩ 0⟩,
        ⟨1, .set "b" ⟨#[2]⟩ 9⟩] w ["a", "b", "a"]
    have hall := hsnapshot (hkeeps (.inr (.inr (.inl ⟨some 1, some 1, rfl⟩))))
    exact ⟨found, s'', hread, (hall "a").trans (by cbv), (hall "b").trans (by cbv),
      (hall "c").trans (by cbv)⟩
  · obtain ⟨found, s'', hread, -, hmissed, -, -⟩ := batch_read
      ⟨some (.entries 1), some (.bytes 70)⟩
      [⟨0, .set "b" ⟨#[2]⟩ 9⟩, ⟨1, .set "a" ⟨#[1, 1, 1, 1, 1, 1]⟩ 0⟩] w ["b", "a"]
    have hnone : ((Backend.localTiers (some s')).getMany w ["b", "a"]).1.toOption.bind (·["a"]?) =
        none := by
      simp only [s', w]
      cbv
    have hlive : (s'.live? w.now "a").isSome := by
      simp only [s', w]
      cbv
    rw [show (Backend.localTiers (some s')).getMany w ["b", "a"] = _ from hread] at hnone
    obtain ⟨hgone, hcount⟩ := hmissed ["a"] (List.nodup_singleton "a") fun key hkey => by
      obtain rfl := List.mem_singleton.mp hkey
      exact ⟨by simp, hlive, hnone⟩
    exact ⟨found, s'', hread, hgone "a" List.mem_cons_self, hcount⟩

open Store in
/-- Both keys are live. The batch that begins with the key of the off-heap tier brings that
entry up and so pushes out the other one, which it then does not find; in the other order
the batch finds both. -/
theorem Backend.batch_misses_pushed_out :
    let w : World Remote.ServerFarm := { clock := 5, network := { servers := [] } }
    let s := (empty ⟨some (.entries 1), some (.bytes 70)⟩ .entryTtl).after
      [⟨0, .set "b" ⟨#[2]⟩ 9⟩, ⟨1, .set "a" ⟨#[1, 1, 1, 1, 1, 1]⟩ 0⟩]
    let read (keys : List String) (key : String) : Option ByteArray :=
      ((Backend.localTiers (some s)).getMany w keys).1.toOption.bind (·[key]?)
    (s.live? w.now "a").map (·.value) = some ⟨#[1, 1, 1, 1, 1, 1]⟩ ∧
      read ["b", "a"] "a" = none ∧ read ["b", "a"] "b" = some ⟨#[2]⟩ ∧
      read ["a", "b"] "a" = some ⟨#[1, 1, 1, 1, 1, 1]⟩ ∧ read ["a", "b"] "b" = some ⟨#[2]⟩ := by
  intro w s read
  refine ⟨?_, ?_, ?_, ?_, ?_⟩
  all_goals
    simp only [read, s, w]
    cbv

end CacheService
