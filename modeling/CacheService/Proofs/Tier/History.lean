import CacheService.Proofs.Tier

/-!
# CacheService.Proofs.Tier.History

Histories of a tier on its own: any operations (`Tier.Op`), in any order, whether or not
the tier admits what is inserted. Each of them keeps a tier `Sound` (`sound_perform`),
so a tier with a history is (`sound_after`), and its contents are one list of rows in
the order of use (`Sound.holds`). An insertion takes the shortest prefix of that list
away that makes room for the new row (`insert_shortest_prefix`).
-/

namespace CacheService

namespace Tier

/-! ## Operations -/

/-- An operation of a tier, of which some are asked of a key that need not be there. -/
inductive Op
  | insert (key : String) (e : Entry)
  | touch (key : String)
  | setDeadline (key : String) (expiresAt : Option UInt64)
  | remove (key : String)
  | removeExpired (now : UInt64)
  | clear

/-- The tier after an operation. -/
def perform (t : Tier) : Op → Tier
  | .insert key e => (t.insert key e).2
  | .touch key => t.touch key
  | .setDeadline key expiresAt => t.setDeadline key expiresAt
  | .remove key => t.erase key
  | .removeExpired now => (t.removeExpired now).2
  | .clear => t.clear

/-- The tier after some operations, by `perform`. -/
def after (t : Tier) (ops : List Op) : Tier := ops.foldl perform t

variable {t : Tier} {key : String}

/-- `touch` leaves a tier that does not have the key. -/
theorem touch_of_get?_eq_none (he : t.get? key = none) : t.touch key = t := by
  rw [touch, if_neg]
  rw [← Std.TreeMap.mem_iff_contains, ← get?_isSome, he]
  simp

/-- So does `setDeadline`. -/
theorem setDeadline_of_get?_eq_none (he : t.get? key = none) (x : Option UInt64) :
    t.setDeadline key x = t := by
  rw [setDeadline, he]

/-- **One operation** keeps a tier `Sound`, and its bound. -/
theorem sound_perform (h : t.Sound) (op : Op) :
    (t.perform op).Sound ∧ (t.perform op).capacity = t.capacity := by
  cases op with
  | insert key e =>
      have hinsert := inserts_insert h key e
      exact ⟨hinsert.sound, hinsert.capacity⟩
  | touch key =>
      refine ⟨?_, capacity_touch t key⟩
      cases he : t.get? key with
      | none => rwa [perform, touch_of_get?_eq_none he]
      | some e => exact sound_touch h he
  | setDeadline key x =>
      refine ⟨?_, capacity_setDeadline t key x⟩
      cases he : t.get? key with
      | none => rwa [perform, setDeadline_of_get?_eq_none he]
      | some e => exact sound_setDeadline h he x
  | remove key => exact ⟨sound_erase h key, capacity_erase t key⟩
  | removeExpired now => exact (rows_removeExpired h now).2
  | clear => exact ⟨sound_clear t, rfl⟩

/-- **A history** keeps a tier `Sound`. -/
theorem sound_after (h : t.Sound) (ops : List Op) :
    (t.after ops).Sound ∧ (t.after ops).capacity = t.capacity := by
  induction ops generalizing t with
  | nil => exact ⟨h, rfl⟩
  | cons op ops ih =>
      obtain ⟨hsound, hcap⟩ := sound_perform h op
      exact ⟨(ih hsound).1, (ih hsound).2.trans hcap⟩

/-! ## Contents -/

/-- A tier holds these rows and no others, from the least to the most recently used, and
counts their bytes (`bytesOf`). -/
structure Holds (t : Tier) (rows : List Row) : Prop where
  order : t.recency.toList = rows.map (·.1)
  entries : t.entries.toList.Perm rows
  bytes : t.usedBytes = bytesOf rows

/-- A `Sound` tier `Holds` its `rows`. -/
theorem Sound.holds (h : t.Sound) : t.Holds t.rows := ⟨h.keys_rows.symm, h.rows_perm.symm, h.bytes⟩

/-! ## Insertion -/

/-- The victims of an insertion are the first `n` of the other rows: as few as leave
room for the new entry, or all if nothing does. -/
structure Displaces (t : Tier) (key : String) (e : Entry) (others : List Row) (n : Nat) : Prop where
  victims : (t.insert key e).1 = others.take n
  /-- The rest stays as it is, in the same order, and the new row is the last. -/
  rest : (t.insert key e).2.Holds (others.drop n ++ [(key, e)])
  capacity : (t.insert key e).2.capacity = t.capacity
  enough : t.capacity.hasRoom (others.drop n) (e.footprint key) = true ∨ n = others.length
  needed : ∀ m < n, t.capacity.hasRoom (others.drop m) (e.footprint key) = false
  /-- What was stored under the key is replaced. -/
  replaced : key ∉ (t.insert key e).1.map (·.1)
  /-- There is room in the end for an entry that the tier admits. -/
  admitted : t.admits (e.footprint key) = true →
    t.capacity.hasRoom (others.drop n) (e.footprint key) = true ∧
      t.capacity.Allows (others.drop n ++ [(key, e)])

/-- An insertion into a `Sound` tier pushes out the shortest prefix of the other rows. -/
theorem Sound.displaces (h : t.Sound) (key : String) (e : Entry) :
    ∃ n ≤ (without key t.rows).length, t.Displaces key e (without key t.rows) n := by
  have hinsert := inserts_insert h key e
  have hholds := hinsert.sound.holds
  obtain ⟨kept, hsplit, hrows, henough, hneeded⟩ := hinsert.rows
  have htake : (without key t.rows).take (t.insert key e).1.length = (t.insert key e).1 := by
    rw [hsplit, List.take_left]
  have hdrop : (without key t.rows).drop (t.insert key e).1.length = kept := by
    rw [hsplit, List.drop_left]
  refine ⟨(t.insert key e).1.length, ?_, htake.symm, ?_, hinsert.capacity, ?_, fun m hm => ?_,
    fun hmem => ?_, fun hadmits => ?_⟩
  · rw [hsplit, List.length_append]
    exact Nat.le_add_right ..
  · rw [hdrop, ← hrows]
    exact hholds
  · rw [hdrop]
    refine henough.imp_right fun hnone => ?_
    rw [hsplit, hnone, List.append_nil]
  · -- with fewer victims the last of them is still in the way
    rw [hsplit, List.drop_append_of_le_length hm.le]
    exact hneeded _ _ (List.take_append_drop m _).symm (by simpa using hm)
  · apply not_mem_without key t.rows
    rw [← htake] at hmem
    exact List.map_subset _ (List.take_subset ..) hmem
  · rw [hdrop]
    refine ⟨henough.elim id fun hnone => ?_, hrows ▸ allows_insert h hadmits⟩
    rw [hnone, ← admits_eq]
    exact hadmits

/-- **An insertion pushes out the shortest least recent prefix.** Take any tier with any
history, and its other rows from the least to the most recently used. However large the
new entry is, and whether or not the tier admits it, the victims are the first of these
rows, as they were and in this order: as few as leave room for the entry, or all of them.
The rest stays in its order, and the new row is the last. An entry that the tier admits
finds room, and the tier is then within its bound. -/
theorem insert_shortest_prefix (name : String) (c : Capacity) (ops : List Op) (key : String)
    (e : Entry) :
    let t := (empty name c).after ops
    let others := without key t.rows
    t.capacity = c ∧ t.Holds t.rows ∧ ∃ n ≤ others.length, t.Displaces key e others n := by
  intro t others
  obtain ⟨hsound, hcap⟩ : t.Sound ∧ t.capacity = c := sound_after (sound_empty name c) ops
  exact ⟨hcap, hsound.holds, hsound.displaces key e⟩

end Tier

end CacheService
