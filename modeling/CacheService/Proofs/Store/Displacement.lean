import CacheService.Proofs.Store.Residence

/-!
# CacheService.Proofs.Store.Displacement

What becomes of the rows of other keys when a call is made on one. Each stays as it is where
it is, or goes down as it is, or is lost and counted once; none goes up. A row that is lost
on its way down counts as expired if it has expired, but what the off-heap tier pushes out
counts as evicted, expired or not.

* `resettles_perform` — a call on a key, by the rows of the other keys;
* `fate_of_others` — the same by what the tiers hold under another key, after any run;
* `losses_classified` — how a lost row is counted, and `expired_row_evicted`: not always by
  whether it has expired.
-/

namespace CacheService.Store

variable {plan : CapacityPlan} {policy : ExpiryPolicy} {s s' s₀ : Store} {now : UInt64}
  {key other : String} {e : Entry} {c : Call} {moving pushed evicted expired : List Row}

/-- What a call on `key` loses, and what becomes of the rows of the other keys. -/
structure Resettles (s : Store) (c : Call) (key : String) (evicted expired : List Row)
    (s' : Store) : Prop where
  settled : Settled c.now (s.intended c) (s.counted c) s' evicted expired
  heap : ∀ row ∈ without key (rowsOf s.heap),
    row ∈ rowsOf s'.heap ∨ row ∈ rowsOf s'.offHeap ∨ row ∈ evicted ++ expired
  offHeap : ∀ row ∈ without key (rowsOf s.offHeap), row ∈ rowsOf s'.offHeap ∨ row ∈ evicted
  /-- Only the off-heap tier has expired rows evicted. -/
  live : ∀ row ∈ evicted,
    row.2.isExpiredAt c.now = false ∨ row ∈ without key (rowsOf s.offHeap)

/-! ## Rows of a cascade -/

section Cascade

variable {bound : Option Capacity} {row : Row}

/-- A row that moves down is in the off-heap tier then, or has been evicted or dropped. -/
theorem Cascade.mem_of_moving (h : Cascade bound now s moving pushed s') (hrow : row ∈ moving) :
    row ∈ rowsOf s'.offHeap ∨ row ∈ pushed ++ moving.filter (refusedBy bound now) ∨
      row ∈ moving.filter (·.2.isExpiredAt now) := by
  rcases List.mem_append.mp ((perm_settlesIn bound now moving).mem_iff.mp hrow) with hin | hout
  · have hmem := List.mem_append_right (rowsOf s.offHeap) hin
    rw [h.offHeap] at hmem
    rcases List.mem_append.mp hmem with hpushed | hkept
    · exact .inr (.inl (List.mem_append_left _ hpushed))
    · exact .inl hkept
  · rcases List.mem_append.mp hout with hrefused | hexpired
    · exact .inr (.inl (List.mem_append_right _ hrefused))
    · exact .inr (.inr hexpired)

/-- A row of the off-heap tier stays or is pushed out. -/
theorem Cascade.mem_of_offHeap (h : Cascade bound now s moving pushed s')
    (hrow : row ∈ rowsOf s.offHeap) : row ∈ rowsOf s'.offHeap ∨ row ∈ pushed := by
  have hmem := List.mem_append_left (moving.filter (settlesIn bound now)) hrow
  rw [h.offHeap] at hmem
  exact (List.mem_append.mp hmem).symm

/-- A row that is evicted is live, or was in the off-heap tier before. -/
theorem Cascade.live_of_evicted (h : Cascade bound now s moving pushed s')
    (hrow : row ∈ pushed ++ moving.filter (refusedBy bound now)) :
    row.2.isExpiredAt now = false ∨ row ∈ rowsOf s.offHeap := by
  rcases List.mem_append.mp hrow with hpushed | hrefused
  · have hmem := List.mem_append_left (rowsOf s'.offHeap) hpushed
    rw [← h.offHeap] at hmem
    rcases List.mem_append.mp hmem with hold | hin
    · exact .inr hold
    · left
      simpa using (Bool.and_eq_true_iff.mp (List.mem_filter.mp hin).2).2
  · left
    simpa using (Bool.and_eq_true_iff.mp (List.mem_filter.mp hrefused).2).2

end Cascade

/-! ## A call on a key -/

/-- The rows that a call leaves without bounds (`intended`) are the stale one, the one
it leaves under its key, and those of the other keys. -/
theorem intended_perm (hv : s.Valid plan policy) (hkey : c.op.key? = some key) :
    (s.intended c).Perm
      ((s.entryAfter c).toList.map (key, ·) ++ (s.stale c ++ without key s.rows)) := by
  obtain ⟨now, op⟩ := c
  cases op with
  | set key value ttl =>
      cases hkey
      exact List.Perm.refl _
  | get key =>
      cases hkey
      cases hfound : s.find? key with
      | none =>
          have hsame := without_eq_self (hv.find?_eq_none.mp hfound)
          simp [intended, entryAfter, stale, live?, hfound, hsame]
      | some e =>
          have hperm := perm_cons_without hv.nodup (hv.find?_eq_some.mp hfound)
          cases hexp : e.isExpiredAt now with
          | true =>
              simpa [intended, entryAfter, stale, live?, hfound, Option.filter, hexp] using hperm
          | false => simp [intended, entryAfter, stale, live?, hfound, Option.filter, hexp]
  | delete key =>
      cases hkey
      exact List.Perm.refl _
  | clear => cases hkey
  | cleanup => cases hkey

/-- The row that is `stale` is stored and has expired. -/
theorem mem_stale (hv : s.Valid plan policy) {row : Row} (h : row ∈ s.stale c) :
    row ∈ s.rows ∧ row.2.isExpiredAt c.now = true := by
  unfold stale at h
  split at h
  · obtain ⟨e, he, rfl⟩ := List.mem_map.mp h
    rw [Option.mem_toList, Option.filter_eq_some_iff] at he
    exact ⟨hv.find?_eq_some.mp he.1, he.2⟩
  · cases h

/-- `TakenOut` leaves the rows of the other keys. -/
theorem TakenOut.rows_eq (h : TakenOut plan policy key s s₀) : s₀.rows = without key s.rows := by
  rw [without_rows, ← h.heap, ← h.offHeap]
  rfl

/-- A call on a key `Resettles` the rows of the others. -/
theorem resettles_perform (hv : s.Valid plan policy) (hkey : c.op.key? = some key) :
    ∃ evicted expired, Resettles s c key evicted expired (s.perform c).2 := by
  obtain ⟨s₀, moving, pushed, hout, htally, hends⟩ := handles_perform hv hkey
  have hintended := intended_perm hv hkey
  have hstale : Settled c.now (s.stale c ++ without key s.rows) (s.counted c) s₀ [] (s.stale c) :=
    ⟨by rw [hout.rows_eq]; exact List.perm_append_comm, htally,
      fun _ hrow => (mem_stale hv hrow).2⟩
  generalize (s.perform c).2 = s' at hends
  generalize s.entryAfter c = after at hends hintended
  cases hends with
  | empty =>
      refine ⟨[], s.stale c, ⟨hintended.trans hstale.rows, hstale.tally, hstale.dead⟩, ?_, ?_,
        nofun⟩
      · rw [← hout.heap]
        exact fun row hrow => .inl hrow
      · rw [← hout.offHeap]
        exact fun row hrow => .inl hrow
  | @placed e moving pushed s' hplaced =>
      have hrest : Settled c.now ([(key, e)] ++ s₀.rows) s₀.tally s' _ _ := hplaced.settled
      have hsettled := hstale.trans hrest
      have hdown := hplaced.cascade
      refine ⟨pushed ++ moving.filter (refusedBy plan.offHeap c.now),
        s.stale c ++ moving.filter (·.2.isExpiredAt c.now),
        ⟨hintended.trans hsettled.rows, hsettled.tally, hsettled.dead⟩, ?_, ?_, ?_⟩
      · intro row hrow
        rw [← hout.heap] at hrow
        rcases List.mem_append.mp (hplaced.heap_perm.mem_iff.mp (List.mem_cons_of_mem _ hrow)) with
          hmoving | hkept
        · refine .inr ((hdown.mem_of_moving hmoving).imp_right ?_)
          rintro (hevicted | hexpired)
          · exact List.mem_append_left _ hevicted
          · exact List.mem_append_right _ (List.mem_append_right _ hexpired)
        · exact .inl hkept
      · rw [← hout.offHeap]
        exact fun row hrow => (hdown.mem_of_offHeap hrow).imp_right (List.mem_append_left _)
      · rw [← hout.offHeap]
        exact fun row hrow => hdown.live_of_evicted hrow

/-! ## The fate of another key -/

/-- What the tiers may hold under the `other` key before and after a call, heap tier
first. What is gone is among the rows that the call has lost. -/
inductive Fate (other : String) (lost : List Row) :
    Option Entry × Option Entry → Option Entry × Option Entry → Prop
  | absent : Fate other lost (none, none) (none, none)
  | staysUp (e : Entry) : Fate other lost (some e, none) (some e, none)
  | goesDown (e : Entry) : Fate other lost (some e, none) (none, some e)
  | staysDown (e : Entry) : Fate other lost (none, some e) (none, some e)
  | lostAbove (e : Entry) (h : (other, e) ∈ lost) : Fate other lost (some e, none) (none, none)
  | lostBelow (e : Entry) (h : (other, e) ∈ lost) : Fate other lost (none, some e) (none, none)

/-- Without bounds, a call leaves each key one row. -/
theorem nodup_intended (hv : s.Valid plan policy) (c : Call) :
    ((s.intended c).map (·.1)).Nodup := by
  have hcons (key : String) (e : Entry) : (((key, e) :: without key s.rows).map (·.1)).Nodup :=
    List.nodup_cons.mpr ⟨not_mem_without key s.rows, nodup_without hv key⟩
  unfold intended
  split
  · exact hcons _ _
  · split
    · exact hcons _ _
    · exact hv.nodup
  · exact nodup_without hv _
  · exact List.nodup_nil
  · exact hv.nodup

/-- No key is stored and lost as well, or lost twice. -/
theorem Resettles.nodup (h : Resettles s c key evicted expired s') (hv : s.Valid plan policy) :
    ((s'.rows ++ (evicted ++ expired)).map (·.1)).Nodup :=
  (h.settled.rows.map (·.1)).nodup_iff.mp (nodup_intended hv c)

/-- A call on a key adds no row under another one. -/
theorem Resettles.absent (h : Resettles s c key evicted expired s') (hv : s.Valid plan policy)
    (hkey : c.op.key? = some key) (hne : other ≠ key) (habsent : other ∉ s.rows.map (·.1)) :
    other ∉ s'.rows.map (·.1) := by
  intro hmem
  obtain ⟨⟨_, e⟩, hrow, rfl⟩ := List.mem_map.mp hmem
  have hintended := h.settled.rows.mem_iff.mpr (List.mem_append_left _ hrow)
  rcases List.mem_append.mp ((intended_perm hv hkey).mem_iff.mp hintended) with hnew | hold
  · obtain ⟨e', -, heq⟩ := List.mem_map.mp hnew
    exact hne (congrArg Prod.fst heq).symm
  · apply habsent
    rcases List.mem_append.mp hold with hstale | hkept
    · exact List.mem_map_of_mem (f := (·.1)) (mem_stale hv hstale).1
    · exact List.mem_map_of_mem (f := (·.1)) (mem_without.mp hkept).1

/-- What `Resettles` says of rows, read off the tiers under one other key. -/
theorem Resettles.fate (h : Resettles s c key evicted expired s') (hv : s.Valid plan policy)
    (hv' : s'.Valid plan policy) (hkey : c.op.key? = some key) (hne : other ≠ key) :
    Fate other (evicted ++ expired) (s.lookups other) (s'.lookups other) := by
  have hlost : ∀ {e}, (other, e) ∈ evicted ++ expired → s'.lookups other = (none, none) := by
    intro e hrow
    have hn := h.nodup hv
    rw [List.map_append, List.nodup_append] at hn
    apply lookups_of_absent hv'
    exact fun hmem => hn.2.2 other hmem other (List.mem_map_of_mem (f := (·.1)) hrow) rfl
  by_cases hstored : other ∈ s.rows.map (·.1)
  · obtain ⟨⟨_, e⟩, hrow, rfl⟩ := List.mem_map.mp hstored
    rcases List.mem_append.mp hrow with hoff | hheap
    · rw [lookups_of_offHeap hv hoff]
      rcases h.offHeap _ (mem_without.mpr ⟨hoff, hne⟩) with hstays | hevicted
      · rw [lookups_of_offHeap hv' hstays]
        exact .staysDown e
      · have hrow := List.mem_append_left expired hevicted
        rw [hlost hrow]
        exact .lostBelow e hrow
    · rw [lookups_of_heap hv hheap]
      rcases h.heap _ (mem_without.mpr ⟨hheap, hne⟩) with hstays | hdown | hrow
      · rw [lookups_of_heap hv' hstays]
        exact .staysUp e
      · rw [lookups_of_offHeap hv' hdown]
        exact .goesDown e
      · rw [hlost hrow]
        exact .lostAbove e hrow
  · rw [lookups_of_absent hv hstored, lookups_of_absent hv' (h.absent hv hkey hne hstored)]
    exact .absent

/-- A row that is lost has expired and counts as such, or is counted as evicted; among
the evicted rows those that have expired are from the off-heap tier. -/
theorem Resettles.mem_expired_iff (h : Resettles s c key evicted expired s')
    (hv : s.Valid plan policy) {row : Row} (hrow : row ∈ evicted ++ expired) :
    row ∈ expired ↔
      row.2.isExpiredAt c.now = true ∧ ¬ (row.1 ≠ key ∧ (s.lookups row.1).2 = some row.2) := by
  have hn := h.nodup hv
  rw [List.map_append, List.nodup_append, List.map_append, List.nodup_append] at hn
  have hoff : row ∈ without key (rowsOf s.offHeap) ↔
      row.1 ≠ key ∧ (s.lookups row.1).2 = some row.2 := by
    rw [mem_without, hv.offHeap.mem_rows, and_comm]
    rfl
  rw [← hoff]
  constructor
  · intro hexpired
    refine ⟨h.settled.dead row hexpired, fun hin => ?_⟩
    have hkey : row.1 ∈ expired.map (·.1) := List.mem_map_of_mem hexpired
    rcases h.offHeap row hin with hkept | hevicted
    · refine hn.2.2 row.1 ?_ row.1 (List.mem_append_right _ hkey) rfl
      exact List.mem_map_of_mem (List.mem_append_left _ hkept)
    · exact hn.2.1.2.2 row.1 (List.mem_map_of_mem hevicted) row.1 hkey rfl
  · rintro ⟨hdead, hout⟩
    rcases List.mem_append.mp hrow with hevicted | hexpired
    · rcases h.live row hevicted with hlive | hin
      · simp [hdead] at hlive
      · exact absurd hin hout
    · exact hexpired

/-- `TakenOut` leaves alone what is stored under the other keys. -/
theorem TakenOut.lookups_eq (h : TakenOut plan policy key s s₀) (hv : s.Valid plan policy)
    (hne : other ≠ key) : s₀.lookups other = s.lookups other := by
  refine Prod.ext (Option.ext fun e => ?_) (Option.ext fun e => ?_)
  · show s₀.heap.bind (·.get? other) = some e ↔ s.heap.bind (·.get? other) = some e
    rw [← h.valid.heap.mem_rows, h.heap, mem_without, hv.heap.mem_rows, and_iff_left hne]
  · show s₀.offHeap.bind (·.get? other) = some e ↔ s.offHeap.bind (·.get? other) = some e
    rw [← h.valid.offHeap.mem_rows, h.offHeap, mem_without, hv.offHeap.mem_rows, and_iff_left hne]

/-- It leaves the other keys in their order. -/
theorem TakenOut.orderOf_eq (h : TakenOut plan policy key s s₀) (hv : s.Valid plan policy) :
    orderOf s₀.heap = (orderOf s.heap).filter (· ≠ key) ∧
      orderOf s₀.offHeap = (orderOf s.offHeap).filter (· ≠ key) := by
  rw [h.valid.heap.orderOf_eq, h.valid.offHeap.orderOf_eq, hv.heap.orderOf_eq,
    hv.offHeap.orderOf_eq, h.heap, h.offHeap, map_fst_without, map_fst_without]
  exact ⟨rfl, rfl⟩

/-- The rows that are lost are those that the `tally` counts. -/
theorem Resettles.losses_counted (h : Resettles s c key evicted expired s') :
    s'.tally.evictions = s.tally.evictions + evicted.length ∧
      s'.tally.expirations = s.tally.expirations + expired.length := by
  obtain ⟨hevictions, hexpirations⟩ := Store.losses_counted s c
  rw [h.settled.tally, ← hevictions, ← hexpirations]
  exact ⟨rfl, rfl⟩

/-! ## After any run -/

/-- **Other keys.** After any run, on any clocks and under any policy, a call on one key
leaves what is stored under another as it is and where it is, or moves it down as it is, or
loses it; each row that is lost is counted once, as evicted or as expired. A delete leaves
the other keys, their order of use and the counters alone. -/
theorem fate_of_others (plan : CapacityPlan) (policy : ExpiryPolicy) (past : List Call) (c : Call)
    (key : String) (hkey : c.op.key? = some key) :
    let s := (empty plan policy).after past
    let s' := (s.perform c).2
    (∃ evicted expired, Settled c.now (s.intended c) (s.counted c) s' evicted expired ∧
      s'.tally.evictions = s.tally.evictions + evicted.length ∧
      s'.tally.expirations = s.tally.expirations + expired.length ∧
      ((s'.rows ++ (evicted ++ expired)).map (·.1)).Nodup ∧
      ∀ other, other ≠ key →
        Fate other (evicted ++ expired) (s.lookups other) (s'.lookups other)) ∧
    (c.op = .delete key → s'.tally = s.tally ∧
      (∀ other, other ≠ key → s'.lookups other = s.lookups other) ∧
      orderOf s'.heap = (orderOf s.heap).filter (· ≠ key) ∧
      orderOf s'.offHeap = (orderOf s.offHeap).filter (· ≠ key)) := by
  intro s s'
  have hv : s.Valid plan policy := valid_after (valid_empty plan policy) past
  have hv' : s'.Valid plan policy := (perform_spec hv c).2.1
  obtain ⟨evicted, expired, h⟩ := resettles_perform hv hkey
  constructor
  · obtain ⟨hevictions, hexpirations⟩ := h.losses_counted
    exact ⟨evicted, expired, h.settled, hevictions, hexpirations, h.nodup hv,
      fun other => h.fate hv hv' hkey⟩
  · intro hop
    have hs' : s' = (s.take key).2 := by
      show (s.perform c).2 = _
      rw [perform, hop]
      rfl
    have hout := takenOut_take hv key
    rw [hs']
    exact ⟨rfl, fun other => hout.lookups_eq hv, hout.orderOf_eq hv⟩

/-- The read of `a` brings it up, and the row of `b`, with its deadline, goes down for it. -/
theorem fate_of_others_demoted :
    let plan : CapacityPlan := ⟨some (.bytes 134), some (.entries 2)⟩
    let past : List Call :=
      [⟨5, .set "a" ⟨#[1]⟩ 0⟩, ⟨3, .set "b" ⟨#[2]⟩ 9⟩, ⟨7, .set "c" ⟨#[3, 3, 3]⟩ 0⟩]
    (Op.get "a").key? = some "a" ∧ ∃ evicted expired,
      Fate "b" (evicted ++ expired) (some (.written 3 ⟨#[2]⟩ 9), none)
        (none, some (.written 3 ⟨#[2]⟩ 9)) ∧
      (((empty plan .entryTtl).after past).get 6 "a").2.tally.evictions = evicted.length ∧
      (((empty plan .entryTtl).after past).get 6 "a").2.tally.expirations = expired.length := by
  intro plan past
  have hbefore : ((empty plan .entryTtl).after past).lookups "b" =
      (some (.written 3 ⟨#[2]⟩ 9), none) := by cbv
  have hafter : (((empty plan .entryTtl).after past).perform ⟨6, .get "a"⟩).2.lookups "b" =
      (none, some (.written 3 ⟨#[2]⟩ 9)) := by cbv
  have hnone : ((empty plan .entryTtl).after past).tally = {} := by cbv
  have hread (s : Store) : (s.perform ⟨6, .get "a"⟩).2 = (s.get 6 "a").2 := rfl
  obtain ⟨evicted, expired, -, hevictions, hexpirations, -, hfate⟩ :=
    (fate_of_others plan .entryTtl past ⟨6, .get "a"⟩ "a" rfl).1
  have hfate := hfate "b" (by decide)
  rw [hbefore, hafter] at hfate
  rw [hnone, Nat.zero_add, hread] at hevictions hexpirations
  exact ⟨rfl, evicted, expired, hfate, hevictions, hexpirations⟩

/-- **How losses are counted.** After any run, on any clocks and under any policy, every row
that a call on a key loses is counted once: as expired if it has expired, and as evicted if it
is live, in whatever way it is lost, but for one. An expired row of another key that the
off-heap tier pushes out is counted as evicted. -/
theorem losses_classified (plan : CapacityPlan) (policy : ExpiryPolicy) (past : List Call)
    (c : Call) (key : String) (hkey : c.op.key? = some key) :
    let s := (empty plan policy).after past
    let s' := (s.perform c).2
    ∃ evicted expired, Settled c.now (s.intended c) (s.counted c) s' evicted expired ∧
      s'.tally.evictions = s.tally.evictions + evicted.length ∧
      s'.tally.expirations = s.tally.expirations + expired.length ∧
      ((s'.rows ++ (evicted ++ expired)).map (·.1)).Nodup ∧
      ∀ row ∈ evicted ++ expired, row ∈ expired ↔
        row.2.isExpiredAt c.now = true ∧ ¬ (row.1 ≠ key ∧ (s.lookups row.1).2 = some row.2) := by
  intro s s'
  have hv : s.Valid plan policy := valid_after (valid_empty plan policy) past
  obtain ⟨evicted, expired, h⟩ := resettles_perform hv hkey
  obtain ⟨hevictions, hexpirations⟩ := h.losses_counted
  exact ⟨evicted, expired, h.settled, hevictions, hexpirations, h.nodup hv,
    fun row => h.mem_expired_iff hv⟩

/-- A write that pushes two rows out of the heap tier, of which one has expired and the other
takes the place of a third in the off-heap tier. -/
theorem losses_classified_cascade :
    let plan : CapacityPlan := ⟨some (.bytes 134), some (.entries 1)⟩
    let past : List Call := [⟨0, .set "a" ⟨#[1]⟩ 0⟩, ⟨0, .set "b" ⟨#[2]⟩ 1⟩, ⟨0, .set "c" ⟨#[3]⟩ 0⟩]
    let c : Call := ⟨1000, .set "d" ⟨#[4, 4, 4, 4, 4]⟩ 0⟩
    c.op.key? = some "d" ∧ ∃ evicted expired : List Row, evicted.length = 1 ∧ expired.length = 1 ∧
      ∀ row ∈ evicted ++ expired, row ∈ expired ↔ row.2.isExpiredAt 1000 = true ∧
        ¬ (row.1 ≠ "d" ∧ (((empty plan .entryTtl).after past).lookups row.1).2 = some row.2) := by
  intro plan past c
  have hbefore : ((empty plan .entryTtl).after past).tally = {} := by cbv
  have hafter : (((empty plan .entryTtl).after past).perform c).2.tally =
      { evictions := 1, expirations := 1 } := by cbv
  obtain ⟨evicted, expired, -, hevictions, hexpirations, -, hclass⟩ :=
    losses_classified plan .entryTtl past c "d" rfl
  rw [hbefore, hafter, Nat.zero_add] at hevictions hexpirations
  exact ⟨rfl, evicted, expired, hevictions.symm, hexpirations.symm, hclass⟩

/-- A row that has expired and is pushed out is counted as evicted by the off-heap tier, and
as expired by the heap tier. -/
theorem expired_row_evicted :
    let past : List Call := [⟨0, .set "a" ⟨#[1]⟩ 1⟩]
    let c : Call := ⟨1000, .set "b" ⟨#[2]⟩ 0⟩
    let below : Store := (empty ⟨none, some (.entries 1)⟩ .entryTtl).after past
    let above : Store := (empty ⟨some (.entries 1), none⟩ .entryTtl).after past
    (above.perform c).2.tally = { expirations := 1 } ∧
      (below.perform c).2.tally = { evictions := 1 } ∧
      ¬ ∃ evicted expired,
        Settled c.now (below.intended c) (below.counted c) (below.perform c).2 evicted expired ∧
          ∀ row ∈ evicted, row.2.isExpiredAt c.now = false := by
  intro past c below above
  have htally : (below.perform c).2.tally = { evictions := 1 } := by cbv
  have hcounted : below.counted c = {} := by cbv
  have hintended : below.intended c =
      [("b", .written 1000 ⟨#[2]⟩ 0), ("a", .written 0 ⟨#[1]⟩ 1)] := by cbv
  have hrows : (below.perform c).2.rows = [("b", .written 1000 ⟨#[2]⟩ 0)] := by cbv
  refine ⟨by cbv, htally, ?_⟩
  rintro ⟨evicted, expired, h, hlive⟩
  have hnone : expired = [] := by
    have hcount := congrArg Tally.expirations (htally.symm.trans h.tally)
    rw [hcounted] at hcount
    exact List.length_eq_zero_iff.mp (by simpa [Tally.evict, Tally.expire] using hcount.symm)
  have hperm := h.rows
  rw [hintended, hrows, hnone, List.append_nil, List.singleton_append, List.perm_cons] at hperm
  have hlive := hlive ("a", .written 0 ⟨#[1]⟩ 1) (hperm.mem_iff.mp List.mem_cons_self)
  have hexp : (Entry.written 0 ⟨#[1]⟩ 1).isExpiredAt 1000 = true := by cbv
  exact Bool.noConfusion (hlive.symm.trans hexp)

end CacheService.Store
