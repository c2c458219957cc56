import Mathlib.Data.List.Perm.Subperm
import Mathlib.Algebra.Order.Ring.Nat
import CacheService.Proofs.Recency
import CacheService.Tier

/-!
# CacheService.Proofs.Tier

A tier as one list of rows, from the least to the most recently used (`Tier.rows`).
Under `Tier.Sound` (the order of use, the entries and the byte count agree) every
operation of a tier is a list operation on its rows:

* `rows_erase`, `rows_touch`, `rows_setDeadline`, `rows_add`, `rows_removeExpired` — one
  equation per operation;
* `pushesOut_makeRoom` — making room takes out the shortest prefix after which there is
  room, or everything;
* `inserts_insert` — the same for an insertion, which appends its row;
* `Capacity.Allows` — the rows that a tier of that capacity may hold. An admitted
  insertion ends within the bound (`allows_insert`), and it pushes nothing out where
  there is room for everything (`insert_of_allows`).

Beside each equation stands the lemma that the operation keeps `Sound` and the capacity.
The first section is about lists of rows alone: their bytes (`bytesOf`), and the rows
without a key (`without`), which is what is left when a key is taken out.
-/

namespace CacheService

open Std

/-- A key with the entry under it. -/
abbrev Row := String × Entry

/-- The bytes of so many rows in a tier bounded in bytes: the sum of their `footprint`s. -/
def bytesOf (rows : List Row) : Nat := (rows.map fun row => row.2.footprint row.1).sum

/-- The rows of the keys that `f` finds an entry for, in the order of the keys. -/
def rowsBy (f : String → Option Entry) (keys : List String) : List Row :=
  keys.filterMap fun key => (f key).map fun e => (key, e)

/-- The rows of all keys but `key`. -/
def without (key : String) (rows : List Row) : List Row := rows.filter (·.1 ≠ key)

/-! ## Lists of rows -/

section Rows

variable {key : String} {rows rows' : List Row} {row : Row}

@[simp] theorem bytesOf_nil : bytesOf [] = 0 := rfl

@[simp] theorem bytesOf_cons (row : Row) (rows : List Row) :
    bytesOf (row :: rows) = row.2.footprint row.1 + bytesOf rows := by
  simp [bytesOf]

/-- `bytesOf` adds up over rows put together. -/
@[simp] theorem bytesOf_append (rows rows' : List Row) :
    bytesOf (rows ++ rows') = bytesOf rows + bytesOf rows' := by
  simp [bytesOf]

/-- `bytesOf` does not depend on the order. -/
theorem bytesOf_perm (h : rows.Perm rows') : bytesOf rows = bytesOf rows' :=
  (h.map _).sum_nat

/-- Fewer rows have no more bytes. -/
theorem bytesOf_le_of_sublist (h : rows.Sublist rows') : bytesOf rows ≤ bytesOf rows' := by
  induction h with
  | slnil => exact Nat.le_refl _
  | cons row _ ih =>
      rw [bytesOf_cons]
      omega
  | cons_cons row _ ih =>
      rw [bytesOf_cons, bytesOf_cons]
      omega

/-- Nor have fewer rows in another order. -/
theorem bytesOf_le_of_subperm (h : rows.Subperm rows') : bytesOf rows ≤ bytesOf rows' := by
  obtain ⟨rows'', hperm, hsub⟩ := h
  rw [← bytesOf_perm hperm]
  exact bytesOf_le_of_sublist hsub

/-- One of the rows has no more bytes than all. -/
theorem footprint_le_bytesOf (h : row ∈ rows) : row.2.footprint row.1 ≤ bytesOf rows := by
  have hle := bytesOf_le_of_sublist (List.singleton_sublist.mpr h)
  simpa using hle

/-- Rows with distinct keys are distinct. -/
theorem nodup_of_nodup_keys (h : (rows.map (·.1)).Nodup) : rows.Nodup := by
  rw [List.nodup_iff_pairwise_ne, List.pairwise_map] at h
  apply h.imp
  rintro row _ hne rfl
  exact hne rfl

/-- Fewer rows in another order have distinct keys if all rows have. -/
theorem nodup_keys_of_subperm (h : rows.Subperm rows') (hn : (rows'.map (·.1)).Nodup) :
    (rows.map (·.1)).Nodup := by
  obtain ⟨kept, hperm, hsub⟩ := h
  exact (hperm.map _).nodup_iff.mp (hn.sublist (hsub.map _))

/-- `without` leaves the rows of other keys. -/
theorem mem_without : row ∈ without key rows ↔ row ∈ rows ∧ row.1 ≠ key := by
  simp [without]

@[simp] theorem without_nil : without key [] = [] := rfl

@[simp] theorem without_append (rows rows' : List Row) :
    without key (rows ++ rows') = without key rows ++ without key rows' :=
  List.filter_append ..

theorem without_sublist (key : String) (rows : List Row) : (without key rows).Sublist rows :=
  List.filter_sublist

/-- `without` leaves rows that do not have the key. -/
theorem without_eq_self (h : key ∉ rows.map (·.1)) : without key rows = rows := by
  rw [without, List.filter_eq_self]
  intro row hrow
  simpa using fun heq : row.1 = key => h (heq ▸ List.mem_map_of_mem hrow)

/-- `without` takes the key out of the keys. -/
theorem map_fst_without (key : String) (rows : List Row) :
    (without key rows).map (·.1) = (rows.map (·.1)).filter (· ≠ key) := by
  rw [without, List.filter_map]
  rfl

theorem not_mem_without (key : String) (rows : List Row) : key ∉ (without key rows).map (·.1) := by
  rw [map_fst_without]
  simp

/-- Rows with distinct keys are the row of one of the keys and those `without` it. -/
theorem perm_cons_without {e : Entry} (hn : (rows.map (·.1)).Nodup) (h : (key, e) ∈ rows) :
    rows.Perm ((key, e) :: without key rows) := by
  induction rows with
  | nil => simp at h
  | cons row rows ih =>
      rw [List.map_cons, List.nodup_cons] at hn
      rcases List.mem_cons.mp h with heq | hmem
      · subst heq
        rw [show without key ((key, e) :: rows) = without key rows by simp [without],
          without_eq_self hn.1]
      · have hne : row.1 ≠ key := fun heq => hn.1 (heq ▸ List.mem_map_of_mem hmem)
        rw [show without key (row :: rows) = row :: without key rows by simp [without, hne]]
        exact ((ih hn.2 hmem).cons row).trans (List.Perm.swap ..)

variable {f g : String → Option Entry} {keys : List String}

/-- `rowsBy` looks each of the keys up. -/
theorem mem_rowsBy {e : Entry} : (key, e) ∈ rowsBy f keys ↔ key ∈ keys ∧ f key = some e := by
  rw [rowsBy, List.mem_filterMap]
  constructor
  · rintro ⟨key', hkey, heq⟩
    obtain ⟨e', he, hpair⟩ := Option.map_eq_some_iff.mp heq
    cases hpair
    exact ⟨hkey, he⟩
  · rintro ⟨hkey, he⟩
    exact ⟨key, hkey, by simp [he]⟩

/-- `rowsBy` depends on what is found under the keys only. -/
theorem rowsBy_congr (h : ∀ key ∈ keys, f key = g key) : rowsBy f keys = rowsBy g keys := by
  induction keys with
  | nil => rfl
  | cons key keys ih =>
      have hrest := ih fun key' hk => h key' (List.mem_cons_of_mem _ hk)
      simp only [rowsBy, List.filterMap_cons] at hrest ⊢
      rw [h key List.mem_cons_self, hrest]

theorem rowsBy_append (keys keys' : List String) :
    rowsBy f (keys ++ keys') = rowsBy f keys ++ rowsBy f keys' :=
  List.filterMap_append ..

/-- The keys of `rowsBy` are those looked up, if all are found. -/
theorem map_fst_rowsBy (h : ∀ key ∈ keys, (f key).isSome) : (rowsBy f keys).map (·.1) = keys := by
  induction keys with
  | nil => rfl
  | cons key keys ih =>
      obtain ⟨e, he⟩ := Option.isSome_iff_exists.mp (h key List.mem_cons_self)
      have hrest := ih fun key' hk => h key' (List.mem_cons_of_mem _ hk)
      rw [rowsBy] at hrest ⊢
      simp [he, hrest]

/-- Looking up all keys but one leaves out its row. -/
theorem rowsBy_filter (f : String → Option Entry) (key : String) (keys : List String) :
    rowsBy f (keys.filter (· ≠ key)) = without key (rowsBy f keys) := by
  induction keys with
  | nil => rfl
  | cons first keys ih =>
      rw [rowsBy, without] at ih ⊢
      by_cases hkey : first = key <;> cases hf : f first <;> simp_all [rowsBy]

end Rows

namespace Tier

/-- The rows of a tier from the least to the most recently used. -/
def rows (t : Tier) : List Row := rowsBy t.get? t.recency.toList

/-- The order of use is of the stored keys, and the bytes are theirs (`bytesOf`). -/
structure Sound (t : Tier) : Prop where
  order : t.recency.Consistent
  keys : ∀ key, key ∈ t.recency.tickOf ↔ key ∈ t.entries
  bytes : t.usedBytes = bytesOf t.rows

variable {t : Tier} {key : String} {e : Entry}

/-! ## The rows of a sound tier -/

theorem get?_isSome : (t.get? key).isSome ↔ key ∈ t.entries := by
  rw [get?, TreeMap.mem_iff_isSome_getElem?]

/-- The order of use is of the stored keys. -/
theorem Sound.mem_order (h : t.Sound) : key ∈ t.recency.toList ↔ (t.get? key).isSome := by
  rw [Recency.mem_toList h.order, h.keys, get?_isSome]

/-- The rows are the entries, each under its key. -/
theorem Sound.mem_rows (h : t.Sound) : (key, e) ∈ t.rows ↔ t.get? key = some e := by
  rw [rows, mem_rowsBy, h.mem_order]
  exact ⟨fun hrow => hrow.2, fun he => ⟨by simp [he], he⟩⟩

/-- The keys of the `rows` are the order of use. -/
theorem Sound.keys_rows (h : t.Sound) : t.rows.map (·.1) = t.recency.toList :=
  map_fst_rowsBy fun _ hk => h.mem_order.mp hk

/-- Each key has one row. -/
theorem Sound.nodup_keys (h : t.Sound) : (t.rows.map (·.1)).Nodup := by
  rw [h.keys_rows]
  exact Recency.nodup_toList h.order

/-- The `rows` are the entries, in another order. -/
theorem Sound.rows_perm (h : t.Sound) : t.rows.Perm t.entries.toList := by
  have hnodup : t.entries.toList.Nodup := by
    apply nodup_of_nodup_keys
    rw [TreeMap.map_fst_toList_eq_keys]
    exact TreeMap.nodup_keys
  rw [List.perm_ext_iff_of_nodup (nodup_of_nodup_keys h.nodup_keys) hnodup]
  rintro ⟨key, e⟩
  rw [h.mem_rows, TreeMap.mem_toList_iff_getElem?_eq_some, get?]

/-- `size` is the number of rows. -/
theorem Sound.size_eq (h : t.Sound) : t.size = t.rows.length := by
  rw [h.rows_perm.length_eq, TreeMap.length_toList, size]

theorem Sound.get?_eq_none (h : t.Sound) : t.get? key = none ↔ key ∉ t.rows.map (·.1) := by
  rw [h.keys_rows, h.mem_order, Option.not_isSome_iff_eq_none]

/-- An entry is no larger than the bytes counted. -/
theorem Sound.footprint_le (h : t.Sound) (he : t.get? key = some e) :
    e.footprint key ≤ t.usedBytes := by
  rw [h.bytes]
  exact footprint_le_bytesOf (h.mem_rows.mpr he)

/-! ## Taking out -/

@[simp] theorem rows_empty (name : String) (c : Capacity) : (empty name c).rows = [] := by
  rw [rows, show (empty name c).recency.toList = [] from Recency.toList_clear Recency.empty]
  rfl

/-- An `empty` tier is `Sound`. -/
theorem sound_empty (name : String) (c : Capacity) : (empty name c).Sound where
  order := Recency.consistent_empty
  keys := by simp [empty]
  bytes := by
    rw [rows_empty]
    rfl

/-- `remove` erases what it finds. -/
theorem remove_eq (t : Tier) (key : String) :
    t.remove key = (t.get? key).map fun e => (e, t.erase key) := by
  unfold erase remove
  cases t.get? key <;> rfl

@[simp] theorem capacity_erase (t : Tier) (key : String) : (t.erase key).capacity = t.capacity := by
  unfold erase remove
  cases t.get? key <;> rfl

/-- `erase` leaves a tier that does not have the key. -/
theorem erase_of_get?_eq_none (h : t.get? key = none) : t.erase key = t := by
  unfold erase remove
  rw [h]

/-- `erase` takes the entry out of all three: entries, bytes and order. -/
theorem erase_of_get?_eq_some (h : t.get? key = some e) :
    t.erase key = { t with
      entries := t.entries.erase key
      usedBytes := t.usedBytes - e.footprint key
      recency := t.recency.erase key } := by
  unfold erase remove
  rw [h]

/-- `erase` takes out the row of the key. -/
theorem rows_erase (h : t.Sound) (key : String) : (t.erase key).rows = without key t.rows := by
  cases he : t.get? key with
  | none =>
      rw [erase_of_get?_eq_none he, without_eq_self (h.get?_eq_none.mp he)]
  | some e =>
      rw [erase_of_get?_eq_some he, rows, rows, Recency.toList_erase h.order, ← rowsBy_filter]
      apply rowsBy_congr
      intro key' hkey
      have hne : key' ≠ key := by simpa using (List.mem_filter.mp hkey).2
      simp [get?, TreeMap.getElem?_erase, Ne.symm hne]

/-- `erase` keeps a tier `Sound`. -/
theorem sound_erase (h : t.Sound) (key : String) : (t.erase key).Sound := by
  have hrows := rows_erase h key
  cases he : t.get? key with
  | none => rwa [erase_of_get?_eq_none he]
  | some e =>
      have hmem := h.mem_rows.mpr he
      have hbytes := bytesOf_perm (perm_cons_without h.nodup_keys hmem)
      rw [erase_of_get?_eq_some he] at hrows ⊢
      refine ⟨Recency.consistent_erase h.order key, ?_, ?_⟩
      · intro key'
        have hkeys := h.keys key'
        rw [TreeMap.mem_iff_isSome_getElem?, Recency.tickOf_erase, TreeMap.mem_erase]
        rw [TreeMap.mem_iff_isSome_getElem?] at hkeys
        by_cases hk : key = key' <;> simp_all
      · rw [hrows]
        simp only [h.bytes, hbytes, bytesOf_cons]
        omega

/-! ## Reading -/

@[simp] theorem capacity_touch (t : Tier) (key : String) : (t.touch key).capacity = t.capacity := by
  unfold touch
  split <;> rfl

theorem touch_of_get?_eq_some (he : t.get? key = some e) :
    t.touch key = { t with recency := t.recency.touch key } := by
  rw [touch, if_pos (TreeMap.mem_iff_contains.mp (get?_isSome.mp (by simp [he])))]

/-- A tier whose last use is of `key` has the row of `key` at the end. -/
theorem rows_of_touched {t' : Tier} (h : t.Sound) (hr : t'.recency = t.recency.touch key)
    (he : t'.get? key = some e) (hne : ∀ key', key' ≠ key → t'.get? key' = t.get? key') :
    t'.rows = without key t.rows ++ [(key, e)] := by
  rw [rows, rows, hr, Recency.toList_touch h.order, rowsBy_append, ← rowsBy_filter]
  have hlast : rowsBy t'.get? [key] = [(key, e)] := by simp [rowsBy, he]
  rw [hlast]
  congr 1
  apply rowsBy_congr
  intro key' hkey
  exact hne key' (by simpa using (List.mem_filter.mp hkey).2)

/-- `touch` makes the row of the key the last. -/
theorem rows_touch (h : t.Sound) (he : t.get? key = some e) :
    (t.touch key).rows = without key t.rows ++ [(key, e)] := by
  rw [touch_of_get?_eq_some he]
  exact rows_of_touched h rfl he fun _ _ => rfl

theorem sound_touch (h : t.Sound) (he : t.get? key = some e) : (t.touch key).Sound := by
  have hrows := rows_touch h he
  have hbytes := bytesOf_perm (perm_cons_without h.nodup_keys (h.mem_rows.mpr he))
  rw [touch_of_get?_eq_some he] at hrows ⊢
  refine ⟨Recency.consistent_touch h.order key, ?_, ?_⟩
  · intro key'
    rw [Recency.touch_eq, TreeMap.mem_insert, Std.compare_eq_iff_eq, h.keys key']
    apply or_iff_right_of_imp
    rintro rfl
    exact get?_isSome.mp (by simp [he])
  · rw [hrows]
    simp only [h.bytes, hbytes, bytesOf_cons, bytesOf_append, bytesOf_nil]
    omega

@[simp] theorem capacity_setDeadline (t : Tier) (key : String) (x : Option UInt64) :
    (t.setDeadline key x).capacity = t.capacity := by
  unfold setDeadline
  split <;> rfl

theorem setDeadline_of_get?_eq_some (he : t.get? key = some e) (x : Option UInt64) :
    t.setDeadline key x =
      { t with entries := t.entries.insert key { e with expiresAt := x } } := by
  rw [setDeadline, he]

theorem get?_setDeadline (he : t.get? key = some e) (x : Option UInt64) (key' : String) :
    (t.setDeadline key x).get? key' =
      if key = key' then some { e with expiresAt := x } else t.get? key' := by
  rw [setDeadline_of_get?_eq_some he, get?, TreeMap.getElem?_insert]
  simp only [Std.compare_eq_iff_eq]
  rfl

/-- `setDeadline` changes only the row of the key, and it stays where it is. -/
theorem rows_setDeadline (he : t.get? key = some e) (x : Option UInt64) :
    (t.setDeadline key x).rows =
      t.rows.map fun row => if row.1 = key then (key, { e with expiresAt := x }) else row := by
  rw [rows, rows, show (t.setDeadline key x).recency = t.recency by
    rw [setDeadline_of_get?_eq_some he]]
  induction t.recency.toList with
  | nil => rfl
  | cons key' keys ih =>
      simp only [rowsBy, List.filterMap_cons] at ih ⊢
      rw [get?_setDeadline he, ih]
      by_cases hk : key = key'
      · subst hk
        simp [he]
      · cases t.get? key' <;> simp [hk, Ne.symm hk]

/-- `setDeadline` keeps a tier `Sound`: a deadline takes no bytes. -/
theorem sound_setDeadline (h : t.Sound) (he : t.get? key = some e) (x : Option UInt64) :
    (t.setDeadline key x).Sound := by
  have hrows := rows_setDeadline he x
  rw [setDeadline_of_get?_eq_some he] at hrows ⊢
  refine ⟨h.order, ?_, ?_⟩
  · intro key'
    rw [TreeMap.mem_insert, Std.compare_eq_iff_eq, h.keys key']
    refine (or_iff_right_of_imp ?_).symm
    rintro rfl
    exact get?_isSome.mp (by simp [he])
  · rw [hrows]
    show t.usedBytes = _
    rw [h.bytes, bytesOf, bytesOf, List.map_map]
    congr 1
    apply List.map_congr_left
    rintro ⟨key', e'⟩ hrow
    by_cases hk : key' = key
    · subst hk
      have heq : e' = e := Option.some.inj ((h.mem_rows.mp hrow).symm.trans he)
      simp [heq, Entry.footprint]
    · simp [hk]

/-- A read dates the entry anew and makes its row the last. -/
theorem rows_touch_setDeadline (h : t.Sound) (he : t.get? key = some e) (x : Option UInt64) :
    ((t.setDeadline key x).touch key).rows =
      without key t.rows ++ [(key, { e with expiresAt := x })] := by
  have he' : (t.setDeadline key x).get? key = some { e with expiresAt := x } := by
    rw [get?_setDeadline he, if_pos rfl]
  rw [touch_of_get?_eq_some he']
  refine rows_of_touched h ?_ he' ?_
  · rw [setDeadline_of_get?_eq_some he]
  · intro key' hne
    exact (get?_setDeadline he x key').trans (if_neg (Ne.symm hne))

theorem sound_touch_setDeadline (h : t.Sound) (he : t.get? key = some e) (x : Option UInt64) :
    ((t.setDeadline key x).touch key).Sound := by
  apply sound_touch (e := { e with expiresAt := x }) (sound_setDeadline h he x)
  rw [get?_setDeadline he, if_pos rfl]

/-! ## Adding -/

@[simp] theorem capacity_add (t : Tier) (key : String) (e : Entry) :
    (t.add key e).capacity = t.capacity := rfl

theorem get?_add (t : Tier) (key : String) (e : Entry) (key' : String) :
    (t.add key e).get? key' = if key = key' then some e else t.get? key' := by
  rw [get?, add, TreeMap.getElem?_insert]
  simp only [Std.compare_eq_iff_eq]
  rfl

/-- `add` appends a row under a new key. -/
theorem rows_add (h : t.Sound) (hnew : t.get? key = none) (e : Entry) :
    (t.add key e).rows = t.rows ++ [(key, e)] := by
  have hrows : (t.add key e).rows = without key t.rows ++ [(key, e)] := by
    apply rows_of_touched h rfl
    · rw [get?_add, if_pos rfl]
    · intro key' hne
      rw [get?_add, if_neg (Ne.symm hne)]
  rw [hrows, without_eq_self (h.get?_eq_none.mp hnew)]

/-- `add` keeps a tier `Sound`. -/
theorem sound_add (h : t.Sound) (hnew : t.get? key = none) (e : Entry) : (t.add key e).Sound := by
  refine ⟨Recency.consistent_touch h.order key, ?_, ?_⟩
  · intro key'
    have hkeys := h.keys key'
    rw [add, Recency.touch_eq, TreeMap.mem_insert, TreeMap.mem_insert, hkeys]
  · rw [rows_add h hnew]
    simp [add, h.bytes]

/-! ## Making room -/

end Tier

/-- Whether a tier with these rows has room for so many bytes more. -/
def Capacity.hasRoom (c : Capacity) (rows : List Row) (footprint : Nat) : Bool :=
  match c with
  | .entries max => rows.length < max.toNat
  | .bytes max => bytesOf rows + footprint ≤ max.toNat

namespace Tier

variable {t : Tier} {key : String} {e : Entry}

/-- `hasRoomFor` asks the capacity about the rows. -/
theorem hasRoomFor_eq (h : t.Sound) (footprint : Nat) :
    t.hasRoomFor footprint = t.capacity.hasRoom t.rows footprint := by
  have hsize := h.size_eq
  have hbytes := h.bytes
  unfold hasRoomFor Capacity.hasRoom
  cases t.capacity with
  | entries max => simp only [hsize]
  | bytes max => simp only [hbytes]

/-- The least recently used entry is the first row, and `evictOldest` erases it. -/
theorem evictOldest_eq (h : t.Sound) :
    t.evictOldest = t.rows.head?.map fun row => ([row], t.erase row.1) := by
  unfold evictOldest
  rw [Recency.evictOldest_eq h.order, ← h.keys_rows, List.head?_map]
  cases hrows : t.rows with
  | nil => rfl
  | cons row rows =>
      obtain ⟨key, e⟩ := row
      have he : t.get? key = some e := h.mem_rows.mp (by simp [hrows])
      simp [he, erase_of_get?_eq_some he]

/-- Taking `victims` out of `t` made room for `footprint` bytes more, and none
of them was taken out without need. -/
structure PushesOut (t : Tier) (footprint : Nat) (victims : List Row) (t' : Tier) : Prop where
  sound : t'.Sound
  capacity : t'.capacity = t.capacity
  rows : t.rows = victims ++ t'.rows
  enough : t.capacity.hasRoom t'.rows footprint ∨ t'.rows = []
  needed : ∀ front back, victims = front ++ back → back ≠ [] →
    t.capacity.hasRoom (back ++ t'.rows) footprint = false

/-- `evictFor` with enough rounds takes out what `PushesOut` says. -/
theorem pushesOut_evictFor {footprint rounds : Nat} (h : t.Sound) (hr : t.rows.length ≤ rounds) :
    t.PushesOut footprint (t.evictFor footprint rounds).1 (t.evictFor footprint rounds).2 := by
  induction rounds generalizing t with
  | zero =>
      have hnil : t.rows = [] := List.length_eq_zero_iff.mp (Nat.le_zero.mp hr)
      exact ⟨h, rfl, rfl, .inr hnil, by simp_all [evictFor]⟩
  | succ rounds ih =>
      rw [evictFor]
      split
      · next hroom =>
          rw [hasRoomFor_eq h] at hroom
          exact ⟨h, rfl, rfl, .inl hroom, by simp_all⟩
      · next hfull =>
          rw [hasRoomFor_eq h, Bool.not_eq_true] at hfull
          rw [evictOldest_eq h]
          cases hrows : t.rows with
          | nil =>
              exact ⟨h, rfl, rfl, .inr hrows, by simp_all⟩
          | cons row rows =>
              have hrest : (t.erase row.1).rows = rows := by
                have hn := h.nodup_keys
                rw [hrows, List.map_cons, List.nodup_cons] at hn
                rw [rows_erase h, hrows, without, List.filter_cons, if_neg (by simp)]
                exact without_eq_self hn.1
              have hle : (t.erase row.1).rows.length ≤ rounds := by
                rw [hrows, List.length_cons] at hr
                rw [hrest]
                omega
              have hstep := ih (sound_erase h row.1) hle
              have hcons : row :: rows = row ::
                  ((evictFor footprint rounds (t.erase row.1)).1 ++
                    (evictFor footprint rounds (t.erase row.1)).2.rows) := by
                rw [← hstep.rows, hrest]
              simp only [List.head?_cons, Option.map_some, List.singleton_append]
              refine ⟨hstep.sound, ?_, hrows.trans hcons, ?_, ?_⟩
              · rw [hstep.capacity, capacity_erase]
              · simpa using hstep.enough
              · -- the first victim left while all rows were there, the others later
                intro front back hsplit hback
                cases front with
                | nil =>
                    rw [List.nil_append] at hsplit
                    rw [← hsplit, List.cons_append, ← hcons, ← hrows]
                    exact hfull
                | cons first front =>
                    rw [List.cons_append, List.cons.injEq] at hsplit
                    simpa using hstep.needed front back hsplit.2 hback

/-- `makeRoom` takes out the shortest prefix after which there is room, or everything. -/
theorem pushesOut_makeRoom (h : t.Sound) (footprint : Nat) :
    t.PushesOut footprint (t.makeRoom footprint).1 (t.makeRoom footprint).2 := by
  have hrounds : t.rows.length = t.recency.size := by
    rw [Recency.size_eq_length h.order, ← h.keys_rows, List.length_map]
  exact pushesOut_evictFor h (Nat.le_of_eq hrounds)

/-- An insertion makes room in the tier without its key, then adds its row. -/
structure Inserts (t : Tier) (key : String) (e : Entry) (victims : List Row) (t' : Tier) :
    Prop where
  sound : t'.Sound
  capacity : t'.capacity = t.capacity
  rows : ∃ kept, without key t.rows = victims ++ kept ∧ t'.rows = kept ++ [(key, e)] ∧
    (t.capacity.hasRoom kept (e.footprint key) ∨ kept = []) ∧
    ∀ front back, victims = front ++ back → back ≠ [] →
      t.capacity.hasRoom (back ++ kept) (e.footprint key) = false

/-- `insert` does what `Inserts` says. -/
theorem inserts_insert (h : t.Sound) (key : String) (e : Entry) :
    t.Inserts key e (t.insert key e).1 (t.insert key e).2 := by
  have hpush := pushesOut_makeRoom (sound_erase h key) (e.footprint key)
  have henough := hpush.enough
  have hneeded := hpush.needed
  have hrows := hpush.rows
  rw [capacity_erase] at henough hneeded
  rw [rows_erase h] at hrows
  have hnew : ((t.erase key).makeRoom (e.footprint key)).2.get? key = none := by
    rw [hpush.sound.get?_eq_none]
    intro hmem
    apply not_mem_without key t.rows
    rw [hrows, List.map_append]
    exact List.mem_append_right _ hmem
  exact ⟨sound_add hpush.sound hnew e, hpush.capacity.trans (capacity_erase t key),
    _, hrows, rows_add hpush.sound hnew e, henough, hneeded⟩

/-- A new row changes places with the rows it pushes out. -/
theorem perm_insert (h : t.Sound) (hnew : key ∉ t.rows.map (·.1)) (e : Entry) :
    ((key, e) :: t.rows).Perm ((t.insert key e).1 ++ (t.insert key e).2.rows) := by
  obtain ⟨kept, hold, hrows, -⟩ := (inserts_insert h key e).rows
  rw [without_eq_self hnew] at hold
  rw [hrows, hold, ← List.append_assoc]
  exact (List.perm_append_singleton ..).symm

/-! ## Bounds -/

end Tier

/-- Whether these rows are within the bound of a tier. -/
def Capacity.Allows (c : Capacity) (rows : List Row) : Prop :=
  match c with
  | .entries max => rows.length ≤ max.toNat
  | .bytes max => bytesOf rows ≤ max.toNat

/-- Fewer rows are within the bound, too. -/
theorem Capacity.allows_of_sublist {c : Capacity} {rows rows' : List Row} (h : rows'.Sublist rows)
    (hr : c.Allows rows) : c.Allows rows' := by
  cases c with
  | entries max => exact Nat.le_trans h.length_le hr
  | bytes max => exact Nat.le_trans (bytesOf_le_of_sublist h) hr

/-- So are fewer rows in another order. -/
theorem Capacity.allows_of_subperm {c : Capacity} {rows rows' : List Row} (h : rows'.Subperm rows)
    (hr : c.Allows rows) : c.Allows rows' := by
  obtain ⟨kept, hperm, hsub⟩ := h
  have hkept := Capacity.allows_of_sublist hsub hr
  cases c with
  | entries max => exact Nat.le_trans (Nat.le_of_eq hperm.length_eq.symm) hkept
  | bytes max => exact Nat.le_trans (Nat.le_of_eq (bytesOf_perm hperm).symm) hkept

/-- Rows that a capacity `Allows` leave room for each of them beside the others. -/
theorem Capacity.hasRoom_of_allows {c : Capacity} {rows : List Row} {row : Row}
    (h : c.Allows (row :: rows)) : c.hasRoom rows (row.2.footprint row.1) := by
  cases c with
  | entries max => simpa [hasRoom, Allows, Nat.succ_le_iff] using h
  | bytes max => simpa [hasRoom, Allows, Nat.add_comm] using h

/-- An admitted row fits into a tier with room for it, and into one without rows. -/
theorem Capacity.allows_append {c : Capacity} {rows : List Row} {row : Row}
    (hroom : c.hasRoom rows (row.2.footprint row.1) ∨ rows = [])
    (hfits : c.hasRoom [] (row.2.footprint row.1)) : c.Allows (rows ++ [row]) := by
  have hroom : c.hasRoom rows (row.2.footprint row.1) := by
    rcases hroom with h | rfl
    · exact h
    · exact hfits
  cases c with
  | entries max => simpa [hasRoom, Allows, Nat.succ_le_iff] using hroom
  | bytes max => simpa [hasRoom, Allows] using hroom

namespace Tier

variable {t : Tier} {key : String} {e : Entry}

/-- A tier `admits` what fits into it when it is empty. -/
theorem admits_eq (t : Tier) (footprint : Nat) :
    t.admits footprint = t.capacity.hasRoom [] footprint := by
  unfold admits Capacity.hasRoom
  cases t.capacity with
  | entries max => simp [UInt64.lt_iff_toNat_lt]
  | bytes max => simp

/-- An admitted insertion ends within the bound. -/
theorem allows_insert (h : t.Sound) (ha : t.admits (e.footprint key)) :
    t.capacity.Allows (t.insert key e).2.rows := by
  obtain ⟨kept, -, hrows, hroom, -⟩ := (inserts_insert h key e).rows
  rw [hrows]
  rw [admits_eq] at ha
  exact Capacity.allows_append hroom ha

/-- A tier whose rows are within its bound together with another one admits that one,
and pushes out nothing for it. -/
theorem insert_of_allows (h : t.Sound) (hnew : key ∉ t.rows.map (·.1))
    (ha : t.capacity.Allows ((key, e) :: t.rows)) :
    t.admits (e.footprint key) ∧ (t.insert key e).1 = [] := by
  constructor
  · rw [admits_eq]
    have hone : [(key, e)].Sublist ((key, e) :: t.rows) :=
      List.singleton_sublist.mpr List.mem_cons_self
    exact Capacity.hasRoom_of_allows (Capacity.allows_of_sublist hone ha)
  · obtain ⟨kept, hold, -, -, hneeded⟩ := (inserts_insert h key e).rows
    by_contra hvictims
    have hfull := hneeded [] (t.insert key e).1 rfl hvictims
    rw [← hold, without_eq_self hnew, Capacity.hasRoom_of_allows ha] at hfull
    cases hfull

/-! ## Sweeping and clearing -/

/-- Erasing several keys takes out their rows. -/
theorem rows_foldl_erase (h : t.Sound) (keys : List String) :
    (keys.foldl erase t).rows = t.rows.filter (·.1 ∉ keys) ∧ (keys.foldl erase t).Sound ∧
      (keys.foldl erase t).capacity = t.capacity := by
  induction keys generalizing t with
  | nil =>
      exact ⟨(List.filter_eq_self.mpr fun row _ => by simp).symm, h, rfl⟩
  | cons key keys ih =>
      obtain ⟨hrows, hsound, hcap⟩ := ih (sound_erase h key)
      refine ⟨?_, hsound, hcap.trans (capacity_erase t key)⟩
      rw [List.foldl_cons, hrows, rows_erase h, without, List.filter_filter]
      apply List.filter_congr
      intro row _
      simp [Bool.and_comm]

/-- `expiredKeys` are the keys of the rows that have expired. -/
theorem mem_expiredKeys (h : t.Sound) (now : UInt64) (hrow : (key, e) ∈ t.rows) :
    key ∈ t.expiredKeys now ↔ e.isExpiredAt now := by
  rw [expiredKeys, List.mem_map]
  constructor
  · rintro ⟨row, hmem, rfl⟩
    rw [List.mem_filter, ← h.rows_perm.mem_iff] at hmem
    have he := (h.mem_rows.mp hrow).symm.trans (h.mem_rows.mp hmem.1)
    rw [Option.some.inj he]
    exact hmem.2
  · intro hexp
    exact ⟨(key, e), List.mem_filter.mpr ⟨h.rows_perm.mem_iff.mp hrow, hexp⟩, rfl⟩

/-- There are as many `expiredKeys` as rows that have expired. -/
theorem length_expiredKeys (h : t.Sound) (now : UInt64) :
    (t.expiredKeys now).length = (t.rows.filter (·.2.isExpiredAt now)).length := by
  rw [expiredKeys, List.length_map]
  exact (h.rows_perm.symm.filter _).length_eq

/-- `removeExpired` keeps the rows that have not expired and counts the others. -/
theorem rows_removeExpired (h : t.Sound) (now : UInt64) :
    (t.removeExpired now).2.rows = t.rows.filter (!·.2.isExpiredAt now) ∧
      (t.removeExpired now).2.Sound ∧ (t.removeExpired now).2.capacity = t.capacity := by
  obtain ⟨hrows, hsound, hcap⟩ := rows_foldl_erase h (t.expiredKeys now)
  refine ⟨hrows.trans (List.filter_congr ?_), hsound, hcap⟩
  rintro ⟨key, e⟩ hrow
  have hmem := mem_expiredKeys h now hrow
  cases hexp : e.isExpiredAt now <;> simp_all

theorem rows_clear (t : Tier) : t.clear.rows = [] := by
  rw [rows, show t.clear.recency.toList = [] from Recency.toList_clear t.recency]
  rfl

theorem sound_clear (t : Tier) : t.clear.Sound where
  order := Recency.consistent_clear t.recency
  keys := by simp [clear, Recency.clear]
  bytes := by
    rw [rows_clear]
    rfl

end Tier

end CacheService
