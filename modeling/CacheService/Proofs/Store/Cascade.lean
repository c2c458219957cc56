import CacheService.Proofs.Store.Invariant
import CacheService.Proofs.Store.Placement
import CacheService.Proofs.Store.Bounds

/-!
# CacheService.Proofs.Store.Cascade

What an operation on one key does to the rows of both tiers, in their order of use.
It takes the row of the key out of the tier that holds it, and places at most one row
under the key again. The heap tier pushes out its first rows for a row that it admits;
these move down one after the other, and each that settles in the off-heap tier may push
out the first rows there, also such as came down before it.

* `lowers_demote` — the three outcomes of moving a row down;
* `cascade_demoteAll` — several rows: what the off-heap tier held and what settles in it,
  one after the other, is what it pushes out and what it then holds;
* `placed_place` — the two ways of placing a row, and `Placed.settled` what it counts;
* `handles_perform` — an operation on a key in these terms.
-/

namespace CacheService

/-- Whether a tier of this capacity, if there is one, could hold the row. -/
def fitsIn (c : Option Capacity) (row : Row) : Bool :=
  c.any (·.hasRoom [] (row.2.footprint row.1))

namespace Store

variable {plan : CapacityPlan} {policy : ExpiryPolicy} {s s' s₁ s₂ : Store} {now : UInt64}
  {key : String} {e : Entry} {c : Option Capacity} {tier : Option Tier} {row : Row}
  {moving moving' pushed pushed' : List Row}

/-- Whether a row that moves down settles in a tier of this capacity: it `fitsIn` and is
live. -/
def settlesIn (c : Option Capacity) (now : UInt64) (row : Row) : Bool :=
  fitsIn c row && !row.2.isExpiredAt now

/-- Whether it is live and finds no place there. -/
def refusedBy (c : Option Capacity) (now : UInt64) (row : Row) : Bool :=
  !fitsIn c row && !row.2.isExpiredAt now

/-- A row either settles, is refused or has expired. -/
theorem perm_settlesIn (c : Option Capacity) (now : UInt64) (rows : List Row) :
    rows.Perm (rows.filter (settlesIn c now) ++
      (rows.filter (refusedBy c now) ++ rows.filter (·.2.isExpiredAt now))) := by
  have hlive := List.filter_append_perm (!·.2.isExpiredAt now) rows
  have hfits := List.filter_append_perm (fitsIn c) (rows.filter (!·.2.isExpiredAt now))
  simp only [List.filter_filter, Bool.not_not] at hlive hfits
  have hall := (hfits.append_right _).trans hlive
  rw [List.append_assoc] at hall
  exact hall.symm

/-- A tier that does not admit an entry is none that it `fitsIn`. -/
theorem admitting_eq_none (h : TierOf c tier) :
    admitting tier (e.footprint key) = none ↔ fitsIn c (key, e) = false := by
  have hany := h.any_admits (e.footprint key)
  rw [fitsIn, ← hany]
  cases tier <;> simp [admitting]

/-- A tier that admits an entry is one that it `fitsIn`. -/
theorem fitsIn_of_admitting {t : Tier} (h : TierOf c tier)
    (hadm : admitting tier (e.footprint key) = some t) : fitsIn c (key, e) = true := by
  cases hfits : fitsIn c (key, e) with
  | true => rfl
  | false =>
      rw [(admitting_eq_none h).mpr hfits] at hadm
      cases hadm

/-! ## Moving down -/

/-- The outcomes of moving a row down. An expired row is dropped. A row that `settlesIn`
becomes the last one of the off-heap tier and pushes out the first ones. -/
inductive Lowers (c : Option Capacity) (now : UInt64) (row : Row) (s : Store) :
    (pushed : List Row) → Store → Prop
  | expired (hexp : row.2.isExpiredAt now = true) :
      Lowers c now row s [] { s with tally := s.tally.expire 1 }
  | settled {pushed kept : List Row} {t : Tier} (hin : settlesIn c now row = true)
      (hold : rowsOf s.offHeap = pushed ++ kept) (hrows : t.rows = kept ++ [row]) :
      Lowers c now row s pushed { s with offHeap := some t, tally := s.tally.evict pushed.length }
  | refused (hout : refusedBy c now row = true) :
      Lowers c now row s [] { s with tally := s.tally.evict 1 }

/-- `demote` does what `Lowers` says. -/
theorem lowers_demote (hoff : TierOf c s.offHeap) (hnew : key ∉ (rowsOf s.offHeap).map (·.1))
    (now : UInt64) (e : Entry) : ∃ pushed, Lowers c now (key, e) s pushed (s.demote now key e) := by
  unfold demote
  split
  · next hexp => exact ⟨[], .expired hexp⟩
  · next hlive =>
      rw [Bool.not_eq_true] at hlive
      split
      · next t hadm =>
          have hfits := fitsIn_of_admitting hoff hadm
          rw [(admitting_eq_some.mp hadm).1] at hoff hnew
          rw [rowsOf_some] at hnew
          obtain ⟨kept, hold, hrows, -⟩ := (Tier.inserts_insert hoff.sound key e).rows
          rw [without_eq_self hnew] at hold
          refine ⟨(t.insert key e).1, .settled (by simp [settlesIn, hlive, hfits]) ?_ hrows⟩
          rw [(admitting_eq_some.mp hadm).1]
          exact hold
      · next hadm =>
          have hfits := (admitting_eq_none hoff).mp hadm
          exact ⟨[], .refused (by simp [refusedBy, hlive, hfits])⟩

/-- Rows on their way down, in this order. Those that settle come behind what the off-heap
tier holds, and `pushed` is what leaves that tier at its other end. -/
structure Cascade (c : Option Capacity) (now : UInt64) (s : Store) (moving pushed : List Row)
    (s' : Store) : Prop where
  offHeap : rowsOf s.offHeap ++ moving.filter (settlesIn c now) = pushed ++ rowsOf s'.offHeap
  tally : s'.tally = (s.tally.evict (pushed ++ moving.filter (refusedBy c now)).length).expire
    (moving.filter (·.2.isExpiredAt now)).length

/-- No row moves down. -/
theorem cascade_nil (c : Option Capacity) (now : UInt64) (s : Store) : Cascade c now s [] [] s where
  offHeap := List.append_nil _
  tally := rfl

/-- One row on its way down is a `Cascade`. -/
theorem Lowers.cascade (h : Lowers c now row s pushed s') : Cascade c now s [row] pushed s' := by
  cases h with
  | expired hexp => constructor <;> simp [settlesIn, refusedBy, hexp, Tally.evict]
  | @settled pushed kept t hin hold hrows =>
      have hlive : fitsIn c row = true ∧ row.2.isExpiredAt now = false := by
        simpa [settlesIn] using hin
      constructor
      · simp [hin, hold, hrows]
      · simp [refusedBy, hlive, Tally.expire]
  | refused hout =>
      have hlive : fitsIn c row = false ∧ row.2.isExpiredAt now = false := by
        simpa [refusedBy] using hout
      constructor
      · simp [settlesIn, hlive]
      · simp [hout, hlive, Tally.expire]

/-- What moves down in turn moves down together. -/
theorem Cascade.trans (h : Cascade c now s moving pushed s₁)
    (h' : Cascade c now s₁ moving' pushed' s₂) :
    Cascade c now s (moving ++ moving') (pushed ++ pushed') s₂ where
  offHeap := by
    rw [List.filter_append, ← List.append_assoc, h.offHeap, List.append_assoc, h'.offHeap,
      List.append_assoc]
  tally := by
    rw [h'.tally, h.tally]
    simp only [Tally.evict, Tally.expire, List.filter_append, List.length_append, Tally.mk.injEq,
      true_and]
    omega

/-- **Several rows** on their way down are a `Cascade`. -/
theorem cascade_demoteAll (s : Store) (hoff : TierOf c s.offHeap)
    (hn : ((moving ++ rowsOf s.offHeap).map (·.1)).Nodup) (now : UInt64) :
    ∃ pushed, Cascade c now s moving pushed
      (moving.foldl (fun s row => s.demote now row.1 row.2) s) := by
  -- The keys on their way and those in the off-heap tier stay distinct, since the tier then
  -- holds nothing but some of its rows and the row that has come down.
  induction moving generalizing s with
  | nil => exact ⟨[], cascade_nil c now s⟩
  | cons row moving ih =>
      rw [List.cons_append, List.map_cons, List.nodup_cons, List.map_append, List.mem_append,
        not_or] at hn
      obtain ⟨pushed, hone⟩ := lowers_demote hoff hn.1.2 now row.2
      have hrows := hone.cascade.offHeap
      have hsub :
          (rowsOf (s.demote now row.1 row.2).offHeap).Sublist (rowsOf s.offHeap ++ [row]) := by
        refine (List.sublist_append_right pushed _).trans ?_
        rw [← hrows]
        exact List.filter_sublist.append_left _
      have hrest : ((moving ++ rowsOf (s.demote now row.1 row.2).offHeap).map (·.1)).Nodup := by
        refine List.Nodup.sublist ((hsub.append_left moving).map (·.1)) ?_
        rw [← List.append_assoc, ((List.perm_append_singleton row _).map (·.1)).nodup_iff,
          List.map_cons, List.nodup_cons, List.map_append, List.mem_append, not_or]
        exact hn
      obtain ⟨pushed', hmore⟩ := ih _ (tierOf_demote hoff now row.1 row.2) hrest
      exact ⟨pushed ++ pushed', hone.cascade.trans hmore⟩

/-! ## Placing -/

/-- The ways of placing a row. In the heap tier it becomes the last row, and the first
ones move down; a row that does not fit there moves down itself. -/
inductive Placed (plan : CapacityPlan) (now : UInt64) (row : Row) (s : Store) :
    (moving pushed : List Row) → Store → Prop
  | inHeap {moving kept pushed : List Row} {s' : Store} (hfits : fitsIn plan.heap row = true)
      (hold : rowsOf s.heap = moving ++ kept) (hheap : rowsOf s'.heap = kept ++ [row])
      (hdown : Cascade plan.offHeap now s moving pushed s') : Placed plan now row s moving pushed s'
  | below {pushed : List Row} {s' : Store} (hfits : fitsIn plan.heap row = false)
      (hheap : rowsOf s'.heap = rowsOf s.heap) (hdown : Lowers plan.offHeap now row s pushed s') :
      Placed plan now row s [row] pushed s'

/-- `place` does what `Placed` says. -/
theorem placed_place (hv : s.Valid plan policy) (hnew : key ∉ s.rows.map (·.1)) (now : UInt64)
    (e : Entry) :
    ∃ moving pushed, Placed plan now (key, e) s moving pushed (s.place now key e) := by
  unfold place
  split
  · next t hadm =>
      have hfits := fitsIn_of_admitting hv.heap hadm
      obtain ⟨hvalid, hperm⟩ := insertHeap_spec hv hnew hadm
      have htier := (admitting_eq_some.mp hadm).1
      have hheap := hv.heap
      have hfresh := (not_mem_tiers hnew).2
      rw [htier] at hheap hfresh
      rw [rowsOf_some] at hfresh
      obtain ⟨kept, hold, hrows, -⟩ := (Tier.inserts_insert hheap.sound key e).rows
      rw [without_eq_self hfresh, ← rowsOf_some, ← htier] at hold
      have hn := (hperm.map (·.1)).nodup_iff.mp (List.nodup_cons.mpr ⟨hnew, hv.nodup⟩)
      have hsub : ((t.insert key e).1 ++ rowsOf s.offHeap).Sublist
          ((t.insert key e).1 ++ rows { s with heap := some (t.insert key e).2 }) :=
        (List.sublist_append_left ..).append_left _
      obtain ⟨pushed, hdown⟩ := cascade_demoteAll { s with heap := some (t.insert key e).2 }
        hv.offHeap (hn.sublist (hsub.map (·.1))) now
      refine ⟨_, pushed, .inHeap hfits hold ?_ ⟨hdown.offHeap, hdown.tally⟩⟩
      rw [heap_demoteAll]
      exact hrows
  · next hadm =>
      have hfits := (admitting_eq_none hv.heap).mp hadm
      obtain ⟨pushed, hdown⟩ := lowers_demote hv.offHeap (not_mem_tiers hnew).1 now e
      exact ⟨_, pushed, .below hfits (by rw [heap_demote]) hdown⟩

/-- What moves down for a row that is `Placed` is a `Cascade`. -/
theorem Placed.cascade (h : Placed plan now row s moving pushed s') :
    Cascade plan.offHeap now s moving pushed s' := by
  cases h with
  | inHeap _ _ _ hdown => exact hdown
  | below _ _ hdown => exact hdown.cascade

/-- A new row and the rows of the heap tier are those that move down and those that are in
the heap tier then. -/
theorem Placed.heap_perm (h : Placed plan now row s moving pushed s') :
    (row :: rowsOf s.heap).Perm (moving ++ rowsOf s'.heap) := by
  cases h with
  | inHeap _ hold hheap _ =>
      rw [hold, hheap, ← List.append_assoc]
      exact (List.perm_append_singleton ..).symm
  | below _ hheap _ => rw [hheap, List.singleton_append]

/-- **What placing a row counts**: as evicted the rows that are pushed out of the off-heap
tier and the live ones that find no place, as expired the others that move down. -/
theorem Placed.settled (h : Placed plan now row s moving pushed s') :
    Settled now (row :: s.rows) s.tally s' (pushed ++ moving.filter (refusedBy plan.offHeap now))
      (moving.filter (·.2.isExpiredAt now)) := by
  refine ⟨?_, h.cascade.tally, fun row hrow => (List.mem_filter.mp hrow).2⟩
  have hheap := h.heap_perm
  have hparts := perm_settlesIn plan.offHeap now moving
  have hoff := h.cascade.offHeap
  rw [List.perm_iff_count] at hheap hparts ⊢
  intro r
  have hheap := hheap r
  have hparts := hparts r
  have hoff := congrArg (List.count r) hoff
  simp only [rows, List.count_cons, List.count_append] at hheap hparts hoff ⊢
  omega

/-! ## Operations on one key -/

/-- The key that an operation is about, if it is about one. -/
def Op.key? : Op → Option String
  | .set key _ _ | .get key | .delete key => some key
  | .clear | .cleanup => none

/-- The entry that a call puts under its key, as far as there is room for it. -/
def entryAfter (s : Store) (c : Call) : Option Entry :=
  match c.op with
  | .set key value ttl => some (newEntry s.policy (s.find? key) value ttl c.now)
  | .get key => (s.live? c.now key).map (accessed s.policy · c.now)
  | _ => none

/-- The expired row that a read finds under its key. -/
def stale (s : Store) (c : Call) : List Row :=
  match c.op with
  | .get key => ((s.find? key).filter (·.isExpiredAt c.now)).toList.map (key, ·)
  | _ => []

/-- `s'` is `s` without the row of a key, whatever it has counted. -/
structure TakenOut (plan : CapacityPlan) (policy : ExpiryPolicy) (key : String) (s s' : Store) :
    Prop where
  valid : s'.Valid plan policy
  heap : rowsOf s'.heap = without key (rowsOf s.heap)
  offHeap : rowsOf s'.offHeap = without key (rowsOf s.offHeap)

/-- `take` leaves a store that is `TakenOut`. -/
theorem takenOut_take (hv : s.Valid plan policy) (key : String) :
    TakenOut plan policy key s (s.take key).2 where
  valid := (take_spec hv key).2.1
  heap := (hv.heap.takeFrom key).2.2
  offHeap := (hv.offHeap.takeFrom key).2.2

/-- A key that is not found need not be taken out. -/
theorem takenOut_absent (hv : s.Valid plan policy) (he : s.find? key = none) (t : Tally) :
    TakenOut plan policy key s { s with tally := t } := by
  obtain ⟨hoff, hheap⟩ := not_mem_tiers (hv.find?_eq_none.mp he)
  exact ⟨hv.withTally t, (without_eq_self hheap).symm, (without_eq_self hoff).symm⟩

/-- Taking the row out of the off-heap tier leaves a store that is `TakenOut`. -/
theorem takenOut_offHeap (hv : s.Valid plan policy) {offHeap : Option Tier}
    (h : takeFrom s.offHeap key = (some e, offHeap)) (tally : Tally) :
    TakenOut plan policy key s { s with offHeap, tally } := by
  obtain ⟨hfound, -, hrows⟩ := hv.offHeap.takeFrom key
  rw [h] at hfound hrows
  have hin : (key, e) ∈ rowsOf s.offHeap := hv.offHeap.mem_rows.mpr hfound.symm
  have hapart : key ∉ (rowsOf s.heap).map (·.1) := fun hheap =>
    hv.disjoint hheap (List.mem_map_of_mem hin)
  exact ⟨(takenOffHeap_spec hv h tally).1, (without_eq_self hapart).symm, hrows⟩

/-- So does taking it out of the heap tier. -/
theorem takenOut_heap (hv : s.Valid plan policy) {t : Tier} (ht : s.heap = some t)
    (he : t.get? key = some e) (tally : Tally) :
    TakenOut plan policy key s { s with heap := some (t.erase key), tally } := by
  have hheap := hv.heap
  rw [ht] at hheap
  have hin : key ∈ (rowsOf s.heap).map (·.1) := by
    rw [ht]
    exact List.mem_map_of_mem (hheap.sound.mem_rows.mpr he)
  have hrows : (t.erase key).rows = without key (rowsOf s.heap) := by
    rw [ht, rowsOf_some, Tier.rows_erase hheap.sound]
  have hsame : without key (rowsOf s.offHeap) = rowsOf s.offHeap :=
    without_eq_self (hv.disjoint hin)
  refine ⟨.of_rows hv.policy_eq (hheap.erase key) hv.offHeap ?_ (nodup_without hv key), hrows,
    hsame.symm⟩
  rw [without_rows, hsame, ← hrows]
  rfl

/-- How a call on a key ends: with the store that is left when the row of the key has
been taken out, or with a row `Placed` there under the key. -/
inductive Ends (plan : CapacityPlan) (now : UInt64) (key : String) (s₀ : Store) :
    (after : Option Entry) → (moving pushed : List Row) → Store → Prop
  | empty : Ends plan now key s₀ none [] [] s₀
  | placed {e : Entry} {moving pushed : List Row} {s' : Store}
      (hplaced : Placed plan now (key, e) s₀ moving pushed s') :
      Ends plan now key s₀ (some e) moving pushed s'

/-- A call on a key takes out the row of the key (`TakenOut`), and counts what it finds,
before it places a row (`Ends`). -/
structure Handles (plan : CapacityPlan) (policy : ExpiryPolicy) (s : Store) (c : Call)
    (key : String) (s₀ : Store) (moving pushed : List Row) (s' : Store) : Prop where
  taken : TakenOut plan policy key s s₀
  tally : s₀.tally = (s.counted c).expire (s.stale c).length
  ends : Ends plan c.now key s₀ (s.entryAfter c) moving pushed s'

section Reading

variable {s₀ : Store}

/-- A key that is `TakenOut` has no row. -/
theorem TakenOut.fresh (h : TakenOut plan policy key s s₀) : key ∉ s₀.rows.map (·.1) := by
  rw [rows, h.heap, h.offHeap, ← without_rows]
  exact not_mem_without key s.rows

/-- A read that finds nothing. -/
theorem handles_absent (he : s.find? key = none) (hout : TakenOut plan policy key s s₀)
    (htally : s₀.tally = s.tally.miss) :
    Handles plan policy s ⟨now, .get key⟩ key s₀ [] [] s₀ := by
  refine ⟨hout, ?_, ?_⟩
  · simp [counted, stale, live?, he, htally, Tally.expire]
  · simpa [entryAfter, live?, he] using Ends.empty

/-- A read that finds an expired row. -/
theorem handles_expired (he : s.find? key = some e) (hexp : e.isExpiredAt now = true)
    (hout : TakenOut plan policy key s s₀) (htally : s₀.tally = (s.tally.expire 1).miss) :
    Handles plan policy s ⟨now, .get key⟩ key s₀ [] [] s₀ := by
  refine ⟨hout, ?_, ?_⟩
  · simp [counted, stale, live?, he, Option.filter, hexp, htally, Tally.expire, Tally.miss]
  · simpa [entryAfter, live?, he, Option.filter, hexp] using Ends.empty

/-- A read that finds a live row, which is placed anew. -/
theorem handles_live (he : s.find? key = some e) (hlive : e.isExpiredAt now = false)
    (hout : TakenOut plan policy key s s₀) (htally : s₀.tally = s.tally.hit)
    (hplaced : Placed plan now (key, accessed s.policy e now) s₀ moving pushed s') :
    Handles plan policy s ⟨now, .get key⟩ key s₀ moving pushed s' := by
  refine ⟨hout, ?_, ?_⟩
  · simp [counted, stale, live?, he, Option.filter, hlive, htally, Tally.expire]
  · simpa [entryAfter, live?, he, Option.filter, hlive] using Ends.placed hplaced

/-- A read that comes to the off-heap tier. -/
theorem handles_getOffHeap (hv : s.Valid plan policy) (hheap : s.heap.bind (·.get? key) = none)
    (now : UInt64) : ∃ s₀ moving pushed,
      Handles plan policy s ⟨now, .get key⟩ key s₀ moving pushed (s.getOffHeap now key).2 := by
  have hfind : s.find? key = (takeFrom s.offHeap key).1 := by
    rw [(hv.offHeap.takeFrom key).1, find?, hheap, Option.none_or]
  unfold getOffHeap
  rcases htaken : takeFrom s.offHeap key with ⟨_ | e, offHeap⟩ <;> rw [htaken] at hfind
  · exact ⟨_, [], [], handles_absent hfind (takenOut_absent hv hfind _) rfl⟩
  · dsimp only
    split
    · next hexp => exact ⟨_, [], [], handles_expired hfind hexp (takenOut_offHeap hv htaken _) rfl⟩
    · next hlive =>
        have hout := takenOut_offHeap hv htaken s.tally.hit
        obtain ⟨moving, pushed, hplaced⟩ :=
          placed_place hout.valid hout.fresh now (accessed s.policy e now)
        exact ⟨_, moving, pushed, handles_live hfind (by simpa using hlive) hout rfl hplaced⟩

/-- A live row of the heap tier becomes its last row, as if it were `Placed` anew;
nothing moves down for it. -/
theorem placed_touched (hv : s.Valid plan policy) {t : Tier} (ht : s.heap = some t)
    (he : t.get? key = some e) (tally : Tally) :
    Placed plan now (key, accessed s.policy e now)
      { s with heap := some (t.erase key), tally } [] []
      { s with
        heap := some ((t.setDeadline key (accessed s.policy e now).expiresAt).touch key)
        tally } := by
  have hheap := hv.heap
  rw [ht] at hheap
  have hdated := Tier.rows_touch_setDeadline hheap.sound he (accessed s.policy e now).expiresAt
  rw [accessed_eq, ← Tier.rows_erase hheap.sound] at hdated
  refine .inHeap ?_ rfl hdated ⟨by simp, rfl⟩
  have hone := Capacity.allows_of_sublist
    (List.singleton_sublist.mpr (hheap.sound.mem_rows.mpr he)) hheap.allows
  rw [← hheap.map_capacity]
  simpa [fitsIn] using Capacity.hasRoom_of_allows hone

/-- **A read**, by where it finds the row. -/
theorem handles_get (hv : s.Valid plan policy) (now : UInt64) (key : String) :
    ∃ s₀ moving pushed,
      Handles plan policy s ⟨now, .get key⟩ key s₀ moving pushed (s.get now key).2 := by
  rw [get]
  split
  · next hnone => exact handles_getOffHeap hv (by simp [hnone]) now
  · next t ht =>
      split
      · next hnone => exact handles_getOffHeap hv (by simp [ht, hnone]) now
      · next e he =>
          have hfind : s.find? key = some e := by
            rw [find?, ht, Option.bind_some, he, Option.some_or]
          split
          · next hexp =>
              exact ⟨_, [], [], handles_expired hfind hexp (takenOut_heap hv ht he _) rfl⟩
          · next hlive =>
              exact ⟨_, [], [], handles_live hfind (by simpa using hlive)
                (takenOut_heap hv ht he s.tally.hit) rfl (placed_touched hv ht he _)⟩

end Reading

/-- **An operation on a key** is one that `Handles` describes: it takes out the row of
the key, and places at most one row. -/
theorem handles_perform (hv : s.Valid plan policy) {c : Call} (hkey : c.op.key? = some key) :
    ∃ s₀ moving pushed, Handles plan policy s c key s₀ moving pushed (s.perform c).2 := by
  obtain ⟨now, op⟩ := c
  cases op with
  | set key value ttl =>
      cases hkey
      have hout := takenOut_take hv key
      obtain ⟨moving, pushed, hplaced⟩ := placed_place hout.valid hout.fresh now
        (newEntry s.policy (s.find? key) value ttl now)
      refine ⟨_, moving, pushed, hout, rfl, .placed ?_⟩
      rw [← (take_spec hv key).1] at hplaced ⊢
      exact hplaced
  | get key =>
      cases hkey
      exact handles_get hv now key
  | delete key =>
      cases hkey
      exact ⟨_, [], [], takenOut_take hv key, rfl, .empty⟩
  | clear => cases hkey
  | cleanup => cases hkey

end Store

end CacheService
