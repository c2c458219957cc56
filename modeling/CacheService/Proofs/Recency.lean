import Mathlib.Data.List.Nodup
import CacheService.Recency

/-!
# CacheService.Proofs.Recency

The order of use as a list of distinct keys (`Recency.toList`). The two tables of a
`Recency` are inverse to each other, and every tick in use lies below the next one
(`Recency.Consistent`); under this invariant each operation is the list operation it
stands for:

* `toList_touch` — a touched key moves to the end;
* `toList_erase` — an erased key is filtered out;
* `evictOldest_eq` — eviction erases the head.

Each operation also keeps the invariant (`consistent_touch`, `consistent_erase`,
`consistent_clear`). The lemmas of the first section read a sorted map as its list of
entries, which is what the table of ticks is.
-/

namespace CacheService

open Std

/-! ## Sorted maps as lists -/

section SortedMap

variable {α β : Type} [Ord α]

/-- The least entry of a map is the `head?` of its list. -/
theorem minEntry?_eq_head?_toList (t : TreeMap α β) : t.minEntry? = t.toList.head? := by
  obtain ⟨⟨t, h⟩⟩ := t
  show DTreeMap.Internal.Impl.Const.minEntry? t = (DTreeMap.Internal.Impl.Const.toList t).head?
  rw [DTreeMap.Internal.Impl.Const.toList_eq_toListModel_map]
  clear h
  induction t using DTreeMap.Internal.Impl.Const.minEntry?.induct with
  | case1 => simp [DTreeMap.Internal.Impl.Const.minEntry?]
  | case2 => simp [DTreeMap.Internal.Impl.Const.minEntry?]
  | case3 => simp_all [DTreeMap.Internal.Impl.Const.minEntry?]

theorem values_eq_map_toList (t : TreeMap α β) : t.values = t.toList.map (·.2) := by
  obtain ⟨⟨t, h⟩⟩ := t
  show t.values = (DTreeMap.Internal.Impl.Const.toList t).map (·.2)
  rw [DTreeMap.Internal.Impl.Const.toList_eq_toListModel_map,
    DTreeMap.Internal.Impl.values_eq_map_snd]
  simp

variable [TransOrd α] [LawfulEqOrd α]

/-- A strictly ascending list with the entries of a map is the map's `toList`. -/
theorem toList_eq_of_mem_iff {t : TreeMap α β} {l : List (α × β)}
    (hl : l.Pairwise fun a b => compare a.1 b.1 = .lt)
    (h : ∀ k v, (k, v) ∈ l ↔ t[k]? = some v) : t.toList = l := by
  have hnodup : ∀ {l : List (α × β)}, (l.Pairwise fun a b => compare a.1 b.1 = .lt) → l.Nodup := by
    intro l hl
    apply hl.imp
    rintro a _ hab rfl
    simp at hab
  have hperm : t.toList.Perm l := by
    rw [List.perm_ext_iff_of_nodup (hnodup TreeMap.ordered_keys_toList) (hnodup hl)]
    rintro ⟨k, v⟩
    rw [TreeMap.mem_toList_iff_getElem?_eq_some, h]
  refine hperm.eq_of_pairwise ?_ TreeMap.ordered_keys_toList hl
  intro a b _ _ hab hba
  rw [OrientedOrd.eq_swap, hba] at hab
  cases hab

/-- `TreeMap.erase` filters the list. -/
theorem toList_erase_eq_filter [DecidableEq α] (t : TreeMap α β) (k : α) :
    (t.erase k).toList = t.toList.filter (·.1 ≠ k) := by
  apply toList_eq_of_mem_iff (TreeMap.ordered_keys_toList.filter _)
  intro k' v
  rw [List.mem_filter, TreeMap.mem_toList_iff_getElem?_eq_some, TreeMap.getElem?_erase]
  by_cases h : k = k'
  · simp [h]
  · simp [h, Ne.symm h]

/-- A key above all others is inserted at the end. -/
theorem toList_insert_of_lt (t : TreeMap α β) {k : α} (v : β)
    (h : ∀ k' ∈ t, compare k' k = .lt) : (t.insert k v).toList = t.toList ++ [(k, v)] := by
  have hlt : ∀ k' v', t[k']? = some v' → compare k' k = .lt := by
    intro k' v' hv
    exact h k' (TreeMap.mem_iff_isSome_getElem?.mpr (by simp [hv]))
  apply toList_eq_of_mem_iff
  · rw [List.pairwise_append]
    refine ⟨TreeMap.ordered_keys_toList, by simp, ?_⟩
    rintro ⟨k', v'⟩ ha b hb
    rw [List.mem_singleton.mp hb]
    exact hlt k' v' (TreeMap.mem_toList_iff_getElem?_eq_some.mp ha)
  · intro k' v'
    rw [List.mem_append, TreeMap.mem_toList_iff_getElem?_eq_some, TreeMap.getElem?_insert]
    by_cases hk : k = k'
    · subst hk
      have hnone : t[k]? ≠ some v' := fun hv => by simpa using hlt k v' hv
      simp [hnone, eq_comm]
    · simp [hk, Ne.symm hk]

end SortedMap

namespace Recency

/-- The two tables are inverse to each other, and ticks to come are unused. -/
structure Consistent (r : Recency) : Prop where
  inverse : ∀ (key : String) (tick : Nat), r.tickOf[key]? = some tick ↔ r.keyAt[tick]? = some key
  below : ∀ tick ∈ r.keyAt, tick < r.nextTick

variable {r : Recency} {key : String}

theorem consistent_empty : empty.Consistent :=
  ⟨by simp [empty], by simp [empty]⟩

/-- The order of use is the table of ticks, read in ascending order. -/
theorem toList_eq (r : Recency) : r.toList = r.keyAt.toList.map (·.2) :=
  values_eq_map_toList r.keyAt

/-- A key is listed if the table of keys has it. -/
theorem mem_toList (h : r.Consistent) : key ∈ r.toList ↔ key ∈ r.tickOf := by
  rw [toList_eq, List.mem_map, TreeMap.mem_iff_isSome_getElem?, Option.isSome_iff_exists]
  constructor
  · rintro ⟨⟨tick, key'⟩, hmem, rfl⟩
    exact ⟨tick, (h.inverse _ _).mpr (TreeMap.mem_toList_iff_getElem?_eq_some.mp hmem)⟩
  · rintro ⟨tick, htick⟩
    exact ⟨(tick, key), TreeMap.mem_toList_iff_getElem?_eq_some.mpr ((h.inverse _ _).mp htick), rfl⟩

/-- A key is listed once, since it has one tick. -/
theorem nodup_toList (h : r.Consistent) : r.toList.Nodup := by
  rw [toList_eq, List.nodup_iff_pairwise_ne, List.pairwise_map]
  apply TreeMap.ordered_keys_toList.imp_of_mem
  rintro ⟨i, k⟩ ⟨j, k'⟩ hi hj hlt heq
  simp only at heq hlt
  subst heq
  have hi := (h.inverse _ _).mpr (TreeMap.mem_toList_iff_getElem?_eq_some.mp hi)
  have hj := (h.inverse _ _).mpr (TreeMap.mem_toList_iff_getElem?_eq_some.mp hj)
  rw [hi, Option.some.injEq] at hj
  simp [hj] at hlt

/-- `size` is the number of keys listed. -/
theorem size_eq_length (h : r.Consistent) : r.size = r.toList.length := by
  have hperm : r.toList.Perm r.tickOf.keys := by
    rw [List.perm_ext_iff_of_nodup (nodup_toList h) TreeMap.nodup_keys]
    intro key
    rw [mem_toList h, TreeMap.mem_keys]
  rw [hperm.length_eq, TreeMap.length_keys, size]

/-- `contains` is membership in the list. -/
theorem contains_eq (h : r.Consistent) : r.contains key = decide (key ∈ r.toList) := by
  rw [Bool.eq_iff_iff, decide_eq_true_iff, mem_toList h, contains, TreeMap.mem_iff_contains]

/-! ## Erasing -/

/-- `erase` keeps the tables inverse. -/
theorem consistent_erase (h : r.Consistent) (key : String) : (r.erase key).Consistent := by
  unfold erase
  split
  · exact h
  · next tick ht =>
      constructor
      · intro key' tick'
        rw [TreeMap.getElem?_erase, TreeMap.getElem?_erase]
        have hkey := h.inverse key' tick'
        have htick := h.inverse key tick
        by_cases hk : key = key' <;> by_cases hn : tick = tick' <;> grind
      · intro tick' ht'
        exact h.below tick' (TreeMap.mem_of_mem_erase ht')

/-- `erase` takes the key out of the list. -/
theorem toList_erase (h : r.Consistent) : (r.erase key).toList = r.toList.filter (· ≠ key) := by
  unfold erase
  split
  · next hnone =>
      have hmem : key ∉ r.toList := by
        rw [mem_toList h, TreeMap.mem_iff_isSome_getElem?, hnone]
        simp
      symm
      rw [List.filter_eq_self]
      intro key' hk
      simpa using fun heq : key' = key => hmem (heq ▸ hk)
  · next tick ht =>
      -- among the ticks in use, only that of the key leads to the key
      rw [toList_eq, toList_eq, toList_erase_eq_filter, List.filter_map]
      congr 1
      apply List.filter_congr
      rintro ⟨tick', key'⟩ hmem
      have hkey := h.inverse key' tick'
      rw [TreeMap.mem_toList_iff_getElem?_eq_some] at hmem
      have htick := h.inverse key tick
      simp only [Function.comp, decide_eq_decide]
      grind

/-! ## Touching -/

/-- `touch` takes the key out of the order and puts it back with the next tick. -/
theorem touch_eq (r : Recency) (key : String) :
    r.touch key =
      { tickOf := r.tickOf.insert key r.nextTick
        keyAt := (r.erase key).keyAt.insert r.nextTick key
        nextTick := r.nextTick + 1 } := by
  unfold touch erase
  cases r.tickOf[key]? <;> rfl

theorem nextTick_erase (r : Recency) (key : String) : (r.erase key).nextTick = r.nextTick := by
  unfold erase
  cases r.tickOf[key]? <;> rfl

theorem tickOf_erase (r : Recency) (key key' : String) :
    (r.erase key).tickOf[key']? = if key = key' then none else r.tickOf[key']? := by
  unfold erase
  split
  · next hnone =>
      split
      · next heq => rw [← heq, hnone]
      · rfl
  · simp [TreeMap.getElem?_erase]

/-- The ticks that `erase` leaves still lie below the next one. -/
theorem below_erase (h : r.Consistent) {tick : Nat} (ht : tick ∈ (r.erase key).keyAt) :
    tick < r.nextTick := by
  rw [← nextTick_erase r key]
  exact (consistent_erase h key).below tick ht

/-- `touch` keeps the tables inverse, and the new tick below the next one. -/
theorem consistent_touch (h : r.Consistent) (key : String) : (r.touch key).Consistent := by
  rw [touch_eq]
  constructor
  · intro key' tick'
    have hold := (consistent_erase h key).inverse key' tick'
    have hnew : (r.erase key).keyAt[r.nextTick]? = none := by
      rw [TreeMap.getElem?_eq_none]
      exact fun hmem => Nat.lt_irrefl _ (below_erase h hmem)
    rw [tickOf_erase] at hold
    rw [TreeMap.getElem?_insert, TreeMap.getElem?_insert]
    by_cases hk : key = key' <;> by_cases hn : r.nextTick = tick' <;> grind
  · intro tick' ht'
    rw [TreeMap.mem_insert] at ht'
    rcases ht' with heq | hmem
    · rw [Std.compare_eq_iff_eq] at heq
      exact heq ▸ Nat.lt_succ_self _
    · exact Nat.lt_succ_of_lt (below_erase h hmem)

/-- `touch` moves the key to the end of the list. -/
theorem toList_touch (h : r.Consistent) :
    (r.touch key).toList = r.toList.filter (· ≠ key) ++ [key] := by
  rw [← toList_erase h, touch_eq, toList_eq, toList_eq, toList_insert_of_lt]
  · simp
  · intro tick ht
    exact Nat.compare_eq_lt.mpr (below_erase h ht)

/-! ## Evicting -/

/-- The least recently used key is the first one, and `evictOldest` erases it. -/
theorem evictOldest_eq (h : r.Consistent) :
    r.evictOldest = r.toList.head?.map fun key => (key, r.erase key) := by
  unfold evictOldest
  rw [toList_eq, minEntry?_eq_head?_toList, List.head?_map]
  cases hhead : r.keyAt.toList.head? with
  | none => rfl
  | some entry =>
      obtain ⟨tick, key⟩ := entry
      have hmem := List.mem_of_head? hhead
      have htick : r.tickOf[key]? = some tick :=
        (h.inverse key tick).mpr (TreeMap.mem_toList_iff_getElem?_eq_some.mp hmem)
      simp [erase, htick]

/-- `oldest?` is the first key of the list. -/
theorem oldest?_eq (r : Recency) : r.oldest? = r.toList.head? := by
  rw [oldest?, minEntry?_eq_head?_toList, toList_eq, List.head?_map]

/-! ## Clearing -/

theorem consistent_clear (r : Recency) : r.clear.Consistent :=
  ⟨by simp [clear], by simp [clear]⟩

@[simp] theorem toList_clear (r : Recency) : r.clear.toList = [] := by
  rw [toList_eq, List.map_eq_nil_iff, ← List.isEmpty_iff, TreeMap.isEmpty_toList]
  rfl

end Recency

end CacheService
