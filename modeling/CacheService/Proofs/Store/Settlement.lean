import CacheService.Proofs.Tier
import CacheService.Proofs.Store.Run

/-!
# CacheService.Proofs.Store.Settlement

What an operation of a store comes to. Were the tiers without bounds, a call
would leave the rows `s.intended c` and the counters `s.counted c`; what the
bounds and the clock take away from that is counted:

* `perform_spec` — a call answers `s.answered c`, keeps the store valid, and the
  rows of `s.intended c` are, in some order, the rows of the store afterwards,
  the rows it counted as evicted, and expired rows that it counted as such;
* `readCase_get` — the four outcomes of a read, with the order of the rows;
* `valid_after` — so after every run the tiers are sound and within the bounds
  of the plan, and no key is there twice.
-/

namespace CacheService

/-- The rows of a tier that may be missing. -/
def rowsOf (tier : Option Tier) : List Row := tier.elim [] Tier.rows

@[simp] theorem rowsOf_none : rowsOf none = [] := rfl

@[simp] theorem rowsOf_some (t : Tier) : rowsOf (some t) = t.rows := rfl

/-- A `Sound` tier within its bound; where there is no bound there is no tier. -/
inductive TierOf : Option Capacity → Option Tier → Prop
  | missing : TierOf none none
  | present {t : Tier} (sound : t.Sound) (bound : t.capacity.Allows t.rows) :
      TierOf (some t.capacity) (some t)

namespace TierOf

variable {c : Option Capacity} {tier : Option Tier} {t : Tier} {key : String} {e : Entry}

theorem of_some {b : Capacity} (hc : t.capacity = b) (sound : t.Sound) (bound : b.Allows t.rows) :
    TierOf (some b) (some t) := by
  subst hc
  exact .present sound bound

theorem sound (h : TierOf c (some t)) : t.Sound := by
  cases h with
  | present sound _ => exact sound

/-- The rows are what is found under each key. -/
theorem mem_rows (h : TierOf c tier) :
    (key, e) ∈ rowsOf tier ↔ tier.bind (·.get? key) = some e := by
  cases h with
  | missing => simp
  | present sound _ => exact sound.mem_rows

theorem size_eq (h : TierOf c tier) : tier.elim 0 Tier.size = (rowsOf tier).length := by
  cases h with
  | missing => rfl
  | present sound _ => exact sound.size_eq

/-- A new tier is within its bound. -/
theorem empty (c : Option Capacity) (name : String) : TierOf c (c.map (Tier.empty name)) := by
  cases c with
  | none => exact .missing
  | some b =>
      apply of_some rfl (Tier.sound_empty name b)
      rw [Tier.rows_empty]
      cases b <;> exact Nat.zero_le _

/-- Taking out a key keeps a tier within its bound. -/
theorem erase (h : TierOf c (some t)) (key : String) : TierOf c (some (t.erase key)) := by
  cases h with
  | present sound bound =>
      apply of_some (Tier.capacity_erase t key) (Tier.sound_erase sound key)
      rw [Tier.rows_erase sound]
      exact Capacity.allows_of_sublist (without_sublist key t.rows) bound

/-- Inserting into a tier that `admits` the entry keeps it within its bound. -/
theorem insert (h : TierOf c (some t)) (ha : t.admits (e.footprint key)) :
    TierOf c (some (t.insert key e).2) := by
  cases h with
  | present sound _ =>
      have hinsert := Tier.inserts_insert sound key e
      exact of_some hinsert.capacity hinsert.sound (Tier.allows_insert sound ha)

/-- Dating an entry anew and using its key keeps the tier within its bound. -/
theorem touch_setDeadline (h : TierOf c (some t)) (he : t.get? key = some e) (x : Option UInt64) :
    TierOf c (some ((t.setDeadline key x).touch key)) := by
  cases h with
  | present sound bound =>
      have hperm := perm_cons_without sound.nodup_keys (sound.mem_rows.mpr he)
      apply of_some (by simp) (Tier.sound_touch_setDeadline sound he x)
      rw [Tier.rows_touch_setDeadline sound he]
      cases hc : t.capacity with
      | entries max =>
          rw [hc] at bound
          have hlen := hperm.length_eq
          simp only [Capacity.Allows, List.length_append, List.length_cons, List.length_nil] at *
          omega
      | bytes max =>
          rw [hc] at bound
          have hbytes := bytesOf_perm hperm
          have hsame : ({ e with expiresAt := x } : Entry).footprint key = e.footprint key := rfl
          simp only [Capacity.Allows, bytesOf_append, bytesOf_cons, bytesOf_nil, hsame] at *
          omega

theorem rows_clear (h : TierOf c tier) : rowsOf (tier.map Tier.clear) = [] := by
  cases h with
  | missing => rfl
  | @present t _ _ => exact Tier.rows_clear t

theorem clear (h : TierOf c tier) : TierOf c (tier.map Tier.clear) := by
  cases h with
  | missing => exact .missing
  | @present t _ _ =>
      have hbound : t.capacity.Allows t.clear.rows := by
        rw [Tier.rows_clear]
        cases t.capacity <;> exact Nat.zero_le _
      exact of_some rfl (Tier.sound_clear t) hbound

/-- `takeFrom` finds the entry of a key and leaves the other rows. -/
theorem takeFrom (h : TierOf c tier) (key : String) :
    (Store.takeFrom tier key).1 = tier.bind (·.get? key) ∧
      TierOf c (Store.takeFrom tier key).2 ∧
      rowsOf (Store.takeFrom tier key).2 = without key (rowsOf tier) := by
  cases tier with
  | none => exact ⟨rfl, h, rfl⟩
  | some t =>
      have hrows := Tier.rows_erase h.sound key
      rw [Store.takeFrom, Tier.remove_eq]
      cases he : t.get? key with
      | none =>
          rw [Tier.erase_of_get?_eq_none he] at hrows
          exact ⟨he.symm, h, hrows⟩
      | some e => exact ⟨he.symm, h.erase key, hrows⟩

/-- `sweepTier` counts the expired rows and leaves the others. -/
theorem sweepTier (h : TierOf c tier) (now : UInt64) :
    (Store.sweepTier now tier).1 = ((rowsOf tier).filter (·.2.isExpiredAt now)).length ∧
      TierOf c (Store.sweepTier now tier).2 ∧
      rowsOf (Store.sweepTier now tier).2 = (rowsOf tier).filter (!·.2.isExpiredAt now) := by
  cases h with
  | missing => exact ⟨rfl, .missing, rfl⟩
  | @present t sound bound =>
      obtain ⟨hrows, hsound, hcap⟩ := Tier.rows_removeExpired sound now
      have hbound : t.capacity.Allows (t.removeExpired now).2.rows := by
        rw [hrows]
        exact Capacity.allows_of_sublist List.filter_sublist bound
      exact ⟨Tier.length_expiredKeys sound now, of_some hcap hsound hbound, hrows⟩

end TierOf

namespace Store

/-- The rows of both tiers, the off-heap tier's first. -/
def rows (s : Store) : List Row := rowsOf s.offHeap ++ rowsOf s.heap

/-- A store with the tiers of a plan (`TierOf`), each within its bound, and no key
twice. -/
structure Valid (plan : CapacityPlan) (policy : ExpiryPolicy) (s : Store) : Prop where
  policy_eq : s.policy = policy
  heap : TierOf plan.heap s.heap
  offHeap : TierOf plan.offHeap s.offHeap
  nodup : (s.rows.map (·.1)).Nodup

/-- The rows of `before` are those of `s'`, those it counted as evicted, and
expired ones that it counted as such. -/
structure Settled (now : UInt64) (before : List Row) (tally : Tally) (s' : Store)
    (evicted expired : List Row) : Prop where
  rows : before.Perm (s'.rows ++ (evicted ++ expired))
  tally : s'.tally = (tally.evict evicted.length).expire expired.length
  dead : ∀ row ∈ expired, row.2.isExpiredAt now

variable {plan : CapacityPlan} {policy : ExpiryPolicy} {s s' : Store} {now : UInt64}
  {key : String} {e : Entry} {before evicted expired : List Row} {tally : Tally}

/-- No key is there twice after a call that has `Settled` rows without one. -/
theorem Settled.nodup (h : Settled now before tally s' evicted expired)
    (hn : (before.map (·.1)).Nodup) : (s'.rows.map (·.1)).Nodup := by
  have hperm := (h.rows.map (·.1)).nodup_iff.mp hn
  rw [List.map_append] at hperm
  exact (List.nodup_append.mp hperm).1

/-- What is `Settled` step by step is settled as a whole. -/
theorem Settled.trans {s₁ s₂ : Store} {incoming evicted' expired' : List Row}
    (h₁ : Settled now before tally s₁ evicted expired)
    (h₂ : Settled now (incoming ++ s₁.rows) s₁.tally s₂ evicted' expired') :
    Settled now (incoming ++ before) tally s₂ (evicted ++ evicted') (expired ++ expired') := by
  constructor
  · have hrows₁ := h₁.rows
    have hrows₂ := h₂.rows
    rw [List.perm_iff_count] at hrows₁ hrows₂ ⊢
    intro row
    have hcount₁ := hrows₁ row
    have hcount₂ := hrows₂ row
    simp only [List.count_append] at hcount₁ hcount₂ ⊢
    omega
  · rw [h₂.tally, h₁.tally, List.length_append, List.length_append]
    simp only [Tally.evict, Tally.expire, Nat.add_assoc]
  · intro row hrow
    rcases List.mem_append.mp hrow with h | h
    · exact h₁.dead row h
    · exact h₂.dead row h

/-! ## Looking up -/

/-- A store is `Valid` by its tiers and its rows. -/
theorem Valid.of_rows {rows : List Row} (hp : s.policy = policy) (hheap : TierOf plan.heap s.heap)
    (hoff : TierOf plan.offHeap s.offHeap) (hrows : s.rows = rows)
    (hn : (rows.map (·.1)).Nodup) : s.Valid plan policy :=
  ⟨hp, hheap, hoff, by rwa [hrows]⟩

/-- No key is in both tiers. -/
theorem Valid.disjoint (hv : s.Valid plan policy) (hheap : key ∈ (rowsOf s.heap).map (·.1)) :
    key ∉ (rowsOf s.offHeap).map (·.1) := by
  intro hoff
  have hn := hv.nodup
  rw [rows, List.map_append, List.nodup_append] at hn
  exact hn.2.2 key hoff key hheap rfl

/-- What is found under a key is its row. -/
theorem Valid.find?_eq_some (hv : s.Valid plan policy) :
    s.find? key = some e ↔ (key, e) ∈ s.rows := by
  rw [find?, rows, List.mem_append, hv.heap.mem_rows, hv.offHeap.mem_rows, Option.or_eq_some_iff]
  constructor
  · rintro (hheap | ⟨-, hoff⟩)
    · exact .inr hheap
    · exact .inl hoff
  · rintro (hoff | hheap)
    · cases hfound : s.heap.bind (·.get? key) with
      | none => exact .inr ⟨rfl, hoff⟩
      | some e' =>
          have hmem := List.mem_map_of_mem (f := (·.1)) (hv.heap.mem_rows.mpr hfound)
          have hmem' := List.mem_map_of_mem (f := (·.1)) (hv.offHeap.mem_rows.mpr hoff)
          exact absurd hmem' (hv.disjoint hmem)
    · exact .inl hheap

theorem Valid.find?_eq_none (hv : s.Valid plan policy) :
    s.find? key = none ↔ key ∉ s.rows.map (·.1) := by
  rw [List.mem_map, Option.eq_none_iff_forall_ne_some]
  constructor
  · rintro hnone ⟨⟨key', e⟩, hmem, rfl⟩
    exact hnone e (hv.find?_eq_some.mpr hmem)
  · rintro hnew e he
    exact hnew ⟨(key, e), hv.find?_eq_some.mp he, rfl⟩

/-- `size` is the number of rows. -/
theorem Valid.size_eq (hv : s.Valid plan policy) : s.size = s.rows.length := by
  rw [size, rows, List.length_append, hv.heap.size_eq, hv.offHeap.size_eq, Nat.add_comm]

/-- Counters do not matter to `Valid`. -/
theorem Valid.withTally (hv : s.Valid plan policy) (t : Tally) :
    Valid plan policy { s with tally := t } :=
  ⟨hv.policy_eq, hv.heap, hv.offHeap, hv.nodup⟩

theorem nodup_without (hv : s.Valid plan policy) (key : String) :
    ((without key s.rows).map (·.1)).Nodup :=
  hv.nodup.sublist ((without_sublist key s.rows).map _)

theorem not_mem_tiers (hnew : key ∉ s.rows.map (·.1)) :
    key ∉ (rowsOf s.offHeap).map (·.1) ∧ key ∉ (rowsOf s.heap).map (·.1) := by
  rw [rows, List.map_append, List.mem_append, not_or] at hnew
  exact hnew

/-- A key that has been taken out (`without`) is not there. -/
theorem fresh_of_without (hrows : s'.rows = without key s.rows) : key ∉ s'.rows.map (·.1) := by
  rw [hrows]
  exact not_mem_without key s.rows

/-! ## Placing -/

/-- `admitting` is the tier, if it is there and admits. -/
theorem admitting_eq_some {tier : Option Tier} {t : Tier} {footprint : Nat} :
    admitting tier footprint = some t ↔ tier = some t ∧ t.admits footprint := by
  rw [admitting, Option.filter_eq_some_iff]

/-- `demote` either keeps the row or counts it, and counts what it pushes out. -/
theorem demote_spec (hv : s.Valid plan policy) (hnew : key ∉ s.rows.map (·.1)) (now : UInt64)
    (e : Entry) :
    (s.demote now key e).Valid plan policy ∧ ∃ evicted expired,
      Settled now ((key, e) :: s.rows) s.tally (s.demote now key e) evicted expired := by
  unfold demote
  split
  · next hexp =>
      refine ⟨hv.withTally _, [], [(key, e)], ?_, rfl, by simpa using hexp⟩
      exact (List.perm_append_singleton ..).symm
  · split
    · next tier hadm =>
        obtain ⟨htier, hadm⟩ := admitting_eq_some.mp hadm
        have hoff := hv.offHeap
        have hfresh := (not_mem_tiers hnew).1
        rw [htier] at hoff hfresh
        have hperm := Tier.perm_insert hoff.sound hfresh e
        have hsettled : Settled now ((key, e) :: s.rows) s.tally
            { s with
              offHeap := some (tier.insert key e).2
              tally := s.tally.evict (tier.insert key e).1.length } (tier.insert key e).1 [] := by
          constructor
          · rw [rows, rows, htier, List.append_nil]
            have hmove := hperm.append_right (rowsOf s.heap)
            rw [List.append_assoc] at hmove
            exact hmove.trans List.perm_append_comm
          · rfl
          · simp
        have hnodup := hsettled.nodup (List.nodup_cons.mpr ⟨hnew, hv.nodup⟩)
        exact ⟨⟨hv.policy_eq, hv.heap, hoff.insert hadm, hnodup⟩, _, _, hsettled⟩
    · exact ⟨hv.withTally _, [(key, e)], [], (List.perm_append_singleton ..).symm, rfl, by simp⟩

/-- The rows that are still to be moved down and those that are there then. -/
theorem Settled.subperm {row : Row} (h : Settled now (row :: before) tally s' evicted expired)
    (victims : List Row) : (victims ++ s'.rows).Subperm (row :: victims ++ before) := by
  have hperm : (row :: victims ++ before).Perm (victims ++ s'.rows ++ (evicted ++ expired)) := by
    rw [List.append_assoc]
    exact List.perm_middle.symm.trans (h.rows.append_left victims)
  exact (List.sublist_append_left ..).subperm.trans hperm.symm.subperm

/-- Moving several rows down, one after the other, has `Settled` all of them. -/
theorem demoteAll_spec (hv : s.Valid plan policy) {victims : List Row}
    (hn : ((victims ++ s.rows).map (·.1)).Nodup) (now : UInt64) :
    (victims.foldl (fun s row => s.demote now row.1 row.2) s).Valid plan policy ∧
      ∃ evicted expired, Settled now (victims ++ s.rows) s.tally
        (victims.foldl (fun s row => s.demote now row.1 row.2) s) evicted expired := by
  induction victims generalizing s with
  | nil => exact ⟨hv, [], [], by simp, rfl, by simp⟩
  | cons row victims ih =>
      have hnew : row.1 ∉ s.rows.map (·.1) := by
        rw [List.cons_append, List.map_cons, List.nodup_cons, List.map_append] at hn
        exact fun hmem => hn.1 (List.mem_append_right _ hmem)
      obtain ⟨hvalid, evicted, expired, hone⟩ := demote_spec hv hnew now row.2
      have hrest := nodup_keys_of_subperm (hone.subperm victims) hn
      obtain ⟨hvalid', evicted', expired', hmore⟩ := ih hvalid hrest
      have hall := hone.trans hmore
      exact ⟨hvalid', evicted ++ evicted', expired ++ expired',
        List.perm_middle.symm.trans hall.rows, hall.tally, hall.dead⟩

/-- An insertion into the heap tier, before what it pushes out is moved down. -/
theorem insertHeap_spec (hv : s.Valid plan policy) (hnew : key ∉ s.rows.map (·.1)) {tier : Tier}
    (hadm : admitting s.heap (e.footprint key) = some tier) :
    Valid plan policy { s with heap := some (tier.insert key e).2 } ∧
      ((key, e) :: s.rows).Perm
        ((tier.insert key e).1 ++ rows { s with heap := some (tier.insert key e).2 }) := by
  obtain ⟨htier, hadm⟩ := admitting_eq_some.mp hadm
  have hheap := hv.heap
  have hfresh := (not_mem_tiers hnew).2
  rw [htier] at hheap hfresh
  -- the victims change places with the new row before they are moved down
  have hperm : ((key, e) :: s.rows).Perm ((tier.insert key e).1 ++
      rows { s with heap := some (tier.insert key e).2 }) := by
    rw [rows, rows, htier]
    have hmove := (Tier.perm_insert hheap.sound hfresh e).append_left (rowsOf s.offHeap)
    exact List.perm_middle.symm.trans (hmove.trans (List.perm_append_comm_assoc ..))
  have hn := (hperm.map (·.1)).nodup_iff.mp (List.nodup_cons.mpr ⟨hnew, hv.nodup⟩)
  rw [List.map_append] at hn
  exact ⟨⟨hv.policy_eq, hheap.insert hadm, hv.offHeap, (List.nodup_append.mp hn).2.1⟩, hperm⟩

/-- `place` keeps the row under its new key or counts it. -/
theorem place_spec (hv : s.Valid plan policy) (hnew : key ∉ s.rows.map (·.1)) (now : UInt64)
    (e : Entry) :
    (s.place now key e).Valid plan policy ∧ ∃ evicted expired,
      Settled now ((key, e) :: s.rows) s.tally (s.place now key e) evicted expired := by
  unfold place
  split
  · next tier hadm =>
      obtain ⟨hvalid, hperm⟩ := insertHeap_spec hv hnew hadm
      have hn := (hperm.map (·.1)).nodup_iff.mp (List.nodup_cons.mpr ⟨hnew, hv.nodup⟩)
      obtain ⟨hvalid', evicted, expired, hall⟩ := demoteAll_spec hvalid hn now
      exact ⟨hvalid', evicted, expired, hperm.trans hall.rows, hall.tally, hall.dead⟩
  · exact demote_spec hv hnew now e

/-! ## Operations -/

/-- The entry under a key whose deadline has not come. -/
def live? (s : Store) (now : UInt64) (key : String) : Option Entry :=
  (s.find? key).filter fun e => !e.isExpiredAt now

/-- The rows that a call would leave in tiers without bounds. -/
def intended (s : Store) (c : Call) : List Row :=
  match c.op with
  | .set key value ttl =>
    (key, newEntry s.policy (s.find? key) value ttl c.now) :: without key s.rows
  | .get key =>
    match s.live? c.now key with
    | some e => (key, accessed s.policy e c.now) :: without key s.rows
    | none => s.rows
  | .delete key => without key s.rows
  | .clear => []
  | .cleanup => s.rows

/-- The counters after a call that loses nothing. -/
def counted (s : Store) (c : Call) : Tally :=
  match c.op with
  | .get key => if (s.live? c.now key).isSome then s.tally.hit else s.tally.miss
  | _ => s.tally

/-- Losses are not `counted` beforehand. -/
theorem losses_counted (s : Store) (c : Call) :
    (s.counted c).evictions = s.tally.evictions ∧
      (s.counted c).expirations = s.tally.expirations := by
  unfold counted
  split
  · split <;> exact ⟨rfl, rfl⟩
  · exact ⟨rfl, rfl⟩

/-- What a call answers, in terms of the entries before it. -/
def answered (s : Store) (c : Call) : Answer :=
  match c.op with
  | .set .. | .clear => .done
  | .get key => .value ((s.live? c.now key).map (·.value))
  | .delete key => .deleted (s.find? key).isSome
  | .cleanup => .removed (s.rows.filter (·.2.isExpiredAt c.now)).length

theorem without_rows (s : Store) (key : String) :
    without key s.rows = without key (rowsOf s.offHeap) ++ without key (rowsOf s.heap) :=
  without_append ..

/-- `take` finds the entry of a key and leaves the other rows. -/
theorem take_spec (hv : s.Valid plan policy) (key : String) :
    (s.take key).1 = s.find? key ∧ (s.take key).2.Valid plan policy ∧
      (s.take key).2.rows = without key s.rows := by
  obtain ⟨hfound, hheap, hrows⟩ := hv.heap.takeFrom key
  obtain ⟨hfound', hoff, hrows'⟩ := hv.offHeap.takeFrom key
  have hall : (s.take key).2.rows = without key s.rows := by
    rw [without_rows, ← hrows, ← hrows']
    rfl
  have hfind : (s.take key).1 = s.find? key := by
    rw [find?, ← hfound, ← hfound']
    rfl
  exact ⟨hfind, .of_rows hv.policy_eq hheap hoff hall (nodup_without hv key), hall⟩

/-- **A write** has `Settled` its row and those of the other keys. -/
theorem set_spec (hv : s.Valid plan policy) (now : UInt64) (key : String) (value : ByteArray)
    (ttl : UInt32) :
    (s.set now key value ttl).Valid plan policy ∧ ∃ evicted expired,
      Settled now ((key, newEntry s.policy (s.find? key) value ttl now) :: without key s.rows)
        s.tally (s.set now key value ttl) evicted expired := by
  obtain ⟨hfound, hvalid, hrows⟩ := take_spec hv key
  have hnew : key ∉ (s.take key).2.rows.map (·.1) := fresh_of_without hrows
  have hplace := place_spec hvalid hnew now (newEntry s.policy (s.find? key) value ttl now)
  rw [hrows, ← hfound] at hplace
  rw [← hfound]
  exact hplace

/-- **A delete** answers whether the key was there, and leaves the other rows. -/
theorem delete_spec (hv : s.Valid plan policy) (key : String) :
    (s.delete key).1 = (s.find? key).isSome ∧ (s.delete key).2.Valid plan policy ∧
      (s.delete key).2.rows = without key s.rows := by
  obtain ⟨hfound, hvalid, hrows⟩ := take_spec hv key
  exact ⟨congrArg Option.isSome hfound, hvalid, hrows⟩

/-- **A clear** leaves nothing. -/
theorem clear_spec (hv : s.Valid plan policy) :
    s.clear.Valid plan policy ∧ s.clear.rows = [] := by
  have hrows : s.clear.rows = [] := by
    rw [rows, List.append_eq_nil_iff]
    exact ⟨hv.offHeap.rows_clear, hv.heap.rows_clear⟩
  exact ⟨.of_rows hv.policy_eq hv.heap.clear hv.offHeap.clear hrows List.nodup_nil, hrows⟩

/-- **A sweep** counts the expired rows and leaves the others. -/
theorem cleanup_spec (hv : s.Valid plan policy) (now : UInt64) :
    (s.cleanup now).1 = (s.rows.filter (·.2.isExpiredAt now)).length ∧
      (s.cleanup now).2.Valid plan policy ∧
      (s.cleanup now).2.rows = s.rows.filter (!·.2.isExpiredAt now) ∧
      (s.cleanup now).2.tally = s.tally.expire (s.cleanup now).1 := by
  obtain ⟨hcount, hheap, hrows⟩ := hv.heap.sweepTier now
  obtain ⟨hcount', hoff, hrows'⟩ := hv.offHeap.sweepTier now
  have hall : (s.cleanup now).2.rows = s.rows.filter (!·.2.isExpiredAt now) := by
    rw [rows, rows, List.filter_append, ← hrows, ← hrows']
    rfl
  have hsum : (s.cleanup now).1 = (s.rows.filter (·.2.isExpiredAt now)).length := by
    rw [rows, List.filter_append, List.length_append, ← hcount, ← hcount', Nat.add_comm]
    rfl
  have hn : ((s.rows.filter (!·.2.isExpiredAt now)).map (·.1)).Nodup :=
    hv.nodup.sublist (List.filter_sublist.map _)
  exact ⟨hsum, .of_rows hv.policy_eq hheap hoff hall hn, hall, rfl⟩

/-! ## Reading -/

/-- A read changes nothing of an entry but its deadline. -/
theorem accessed_eq (policy : ExpiryPolicy) (e : Entry) (now : UInt64) :
    { e with expiresAt := (accessed policy e now).expiresAt } = accessed policy e now := by
  unfold accessed
  split <;> rfl

/-- The outcomes of reading `key`. An entry that has expired is taken out of its
tier; a live one becomes the last row, at once if it is in the heap tier and by
way of being placed anew if it is in the off-heap tier. -/
inductive ReadCase (plan : CapacityPlan) (policy : ExpiryPolicy) (s : Store) (now : UInt64)
    (key : String) : Option ByteArray × Store → Prop
  | absent (he : s.find? key = none) :
      ReadCase plan policy s now key (none, { s with tally := s.tally.miss })
  | expired {e : Entry} {s' : Store} (he : s.find? key = some e) (hexp : e.isExpiredAt now)
      (hv : s'.Valid plan policy) (hrows : s'.rows = without key s.rows)
      (htally : s'.tally = (s.tally.expire 1).miss) : ReadCase plan policy s now key (none, s')
  | fromHeap {e : Entry} {s' : Store} (he : s.find? key = some e)
      (hlive : e.isExpiredAt now = false) (hv : s'.Valid plan policy)
      (hrows : s'.rows = without key s.rows ++ [(key, accessed s.policy e now)])
      (htally : s'.tally = s.tally.hit) : ReadCase plan policy s now key (some e.value, s')
  | fromOffHeap {e : Entry} {s' : Store} (he : s.find? key = some e)
      (hlive : e.isExpiredAt now = false) (hv : s'.Valid plan policy)
      (hrows : s'.rows = without key s.rows) (htally : s'.tally = s.tally.hit) :
      ReadCase plan policy s now key (some e.value, s'.place now key (accessed s.policy e now))

theorem nodup_concat_without (hv : s.Valid plan policy) (key : String) (e : Entry) :
    ((without key s.rows ++ [(key, e)]).map (·.1)).Nodup := by
  have hperm : (without key s.rows ++ [(key, e)]).Perm ((key, e) :: without key s.rows) :=
    List.perm_append_singleton ..
  rw [(hperm.map _).nodup_iff, List.map_cons, List.nodup_cons]
  exact ⟨not_mem_without key s.rows, nodup_without hv key⟩

/-- A read that comes to the off-heap tier is one of `ReadCase`. -/
theorem readCase_getOffHeap (hv : s.Valid plan policy) (hheap : s.heap.bind (·.get? key) = none)
    (now : UInt64) : ReadCase plan policy s now key (s.getOffHeap now key) := by
  obtain ⟨hfound, hoff, hrows⟩ := hv.offHeap.takeFrom key
  have hfind : s.find? key = (takeFrom s.offHeap key).1 := by
    rw [hfound, find?, hheap, Option.none_or]
  have hwithout : without key (rowsOf s.heap) = rowsOf s.heap := by
    apply without_eq_self
    intro hmem
    obtain ⟨⟨key', e⟩, hrow, rfl⟩ := List.mem_map.mp hmem
    rw [hv.heap.mem_rows, hheap] at hrow
    cases hrow
  have hrest : rows { s with offHeap := (takeFrom s.offHeap key).2 } = without key s.rows := by
    rw [without_rows, hwithout, ← hrows]
    rfl
  have hvalid : Valid plan policy { s with offHeap := (takeFrom s.offHeap key).2 } :=
    .of_rows hv.policy_eq hv.heap hoff hrest (nodup_without hv key)
  rw [getOffHeap]
  split
  · next hnone =>
      rw [hnone] at hfind
      exact .absent hfind
  · next e offHeap heq =>
      rw [heq] at hfind hrest hvalid
      split
      · next hexp => exact .expired hfind hexp (hvalid.withTally _) hrest rfl
      · next hlive =>
          exact .fromOffHeap hfind (by simpa using hlive) (hvalid.withTally s.tally.hit) hrest rfl

/-- **A read** is one of `ReadCase`. -/
theorem readCase_get (hv : s.Valid plan policy) (now : UInt64) (key : String) :
    ReadCase plan policy s now key (s.get now key) := by
  rw [get]
  split
  · next hnone => exact readCase_getOffHeap hv (by simp [hnone]) now
  · next tier hheap =>
      split
      · next hnone => exact readCase_getOffHeap hv (by simp [hheap, hnone]) now
      · next e he =>
          have hv' := hv.heap
          rw [hheap] at hv'
          have hfind : s.find? key = some e := by
            rw [find?, hheap, Option.bind_some, he, Option.some_or]
          have hin : key ∈ (rowsOf s.heap).map (·.1) := by
            rw [hheap]
            exact List.mem_map_of_mem (hv'.sound.mem_rows.mpr he)
          have hrest : without key s.rows = rowsOf s.offHeap ++ without key tier.rows := by
            rw [without_rows, without_eq_self (hv.disjoint hin), hheap, rowsOf_some]
          split
          · next hexp =>
              have hrows : ∀ t, rows { s with heap := some (tier.erase key), tally := t } =
                  without key s.rows := by
                intro t
                rw [hrest, rows, rowsOf_some, Tier.rows_erase hv'.sound]
              exact .expired hfind hexp
                (.of_rows hv.policy_eq (hv'.erase key) hv.offHeap (hrows _) (nodup_without hv key))
                (hrows _) rfl
          · next hlive =>
              have hdated :=
                Tier.rows_touch_setDeadline hv'.sound he (accessed s.policy e now).expiresAt
              have htier := hv'.touch_setDeadline he (accessed s.policy e now).expiresAt
              rw [accessed_eq] at hdated
              have hrows : ∀ t, rows { s with
                  heap :=
                    some ((tier.setDeadline key (accessed s.policy e now).expiresAt).touch key)
                  tally := t } = without key s.rows ++ [(key, accessed s.policy e now)] := by
                intro t
                rw [hrest, rows, rowsOf_some, hdated, List.append_assoc]
              exact .fromHeap hfind (by simpa using hlive)
                (.of_rows hv.policy_eq htier hv.offHeap (hrows _) (nodup_concat_without hv key _))
                (hrows _) rfl

/-- A read answers the value that is `live?`. What it does not find live is not there
afterwards. -/
theorem get_spec (hv : s.Valid plan policy) (now : UInt64) (key : String) :
    (s.get now key).1 = (s.live? now key).map (·.value) ∧
      (s.get now key).2.Valid plan policy ∧
      (s.live? now key = none → (s.get now key).2.rows = without key s.rows) ∧
      ∃ evicted expired, Settled now (s.intended ⟨now, .get key⟩) (s.counted ⟨now, .get key⟩)
        (s.get now key).2 evicted expired := by
  have hread := readCase_get hv now key
  generalize s.get now key = r at hread
  simp only [intended, counted]
  cases hread with
  | absent he =>
      have hdead : s.live? now key = none := by simp [live?, he]
      have hsame := without_eq_self (hv.find?_eq_none.mp he)
      rw [hdead]
      refine ⟨rfl, hv.withTally _, fun _ => hsame.symm, [], [], ?_, rfl, by simp⟩
      show s.rows.Perm (s.rows ++ [])
      rw [List.append_nil]
  | @expired e s' he hexp hv' hrows htally =>
      have hdead : s.live? now key = none := by simp [live?, he, hexp]
      have hperm := perm_cons_without hv.nodup (hv.find?_eq_some.mp he)
      rw [hdead]
      refine ⟨rfl, hv', fun _ => hrows, [], [(key, e)], ?_, htally, by simpa using hexp⟩
      rw [hrows]
      exact hperm.trans (List.perm_append_singleton ..).symm
  | @fromHeap e s' he hlive hv' hrows htally =>
      have hfound : s.live? now key = some e := by simp [live?, he, hlive]
      rw [hfound]
      refine ⟨rfl, hv', nofun, [], [], ?_, htally, by simp⟩
      rw [hrows, List.append_nil, List.append_nil]
      exact (List.perm_append_singleton ..).symm
  | @fromOffHeap e s' he hlive hv' hrows htally =>
      have hfound : s.live? now key = some e := by simp [live?, he, hlive]
      have hnew : key ∉ s'.rows.map (·.1) := fresh_of_without hrows
      obtain ⟨hvalid, evicted, expired, hplace⟩ :=
        place_spec hv' hnew now (accessed s.policy e now)
      rw [hrows, htally] at hplace
      rw [hfound]
      exact ⟨rfl, hvalid, nofun, evicted, expired, hplace⟩

/-- **One call** answers what is `answered`, and has `Settled` what is `intended`. -/
theorem perform_spec (hv : s.Valid plan policy) (c : Call) :
    (s.perform c).1 = s.answered c ∧ (s.perform c).2.Valid plan policy ∧ ∃ evicted expired,
      Settled c.now (s.intended c) (s.counted c) (s.perform c).2 evicted expired := by
  obtain ⟨now, op⟩ := c
  cases op with
  | set key value ttl => exact ⟨rfl, set_spec hv now key value ttl⟩
  | get key =>
      obtain ⟨hanswer, hvalid, -, hsettled⟩ := get_spec hv now key
      exact ⟨congrArg Answer.value hanswer, hvalid, hsettled⟩
  | delete key =>
      obtain ⟨hfound, hvalid, hrows⟩ := delete_spec hv key
      refine ⟨congrArg Answer.deleted hfound, hvalid, [], [], ?_, rfl, by simp⟩
      simp [perform, intended, hrows]
  | clear =>
      obtain ⟨hvalid, hrows⟩ := clear_spec hv
      refine ⟨rfl, hvalid, [], [], ?_, rfl, by simp⟩
      simp [perform, intended, hrows]
  | cleanup =>
      obtain ⟨hcount, hvalid, hrows, htally⟩ := cleanup_spec hv now
      have hsettled : Settled now s.rows s.tally (s.cleanup now).2 []
          (s.rows.filter (·.2.isExpiredAt now)) := by
        constructor
        · rw [hrows, List.nil_append]
          exact (List.filter_append_perm _ s.rows).symm.trans List.perm_append_comm
        · rw [htally, hcount]
          rfl
        · intro row hrow
          exact (List.mem_filter.mp hrow).2
      exact ⟨congrArg Answer.removed hcount, hvalid, _, _, hsettled⟩

/-! ## Runs -/

@[simp] theorem rows_empty (plan : CapacityPlan) (policy : ExpiryPolicy) :
    (empty plan policy).rows = [] := by
  unfold rows empty
  cases plan.heap <;> cases plan.offHeap <;> simp

/-- An empty store is `Valid`. -/
theorem valid_empty (plan : CapacityPlan) (policy : ExpiryPolicy) :
    (empty plan policy).Valid plan policy :=
  .of_rows rfl (.empty plan.heap "heap") (.empty plan.offHeap "off-heap")
    (rows_empty plan policy) List.nodup_nil

/-- **A run** keeps a store `Valid`. -/
theorem valid_after (hv : s.Valid plan policy) (calls : List Call) :
    (s.after calls).Valid plan policy := by
  refine after_induction (P := fun _ s => s.Valid plan policy) ?_ [] hv calls
  intro _ s c hs
  exact (perform_spec hs c).2.1

end Store

end CacheService
