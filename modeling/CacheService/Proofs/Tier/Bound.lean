import Mathlib
import CacheService.Proofs.Outcome
import CacheService.Proofs.Store.Invariant
import CacheService.Proofs.Tier.History

/-!
# CacheService.Proofs.Tier.Bound

The bound of a tier whose insertions need not ask whether the tier admits the entry.
A tier on its own takes any operations in any order; its entries, its order of use and
its bytes stay in step, and it is within its bound except right after an entry that it
does not admit, which then is the only one:

* `use_cases` — an operation puts in a row, or keeps some rows up to their deadlines;
* `Bounded.use` — what an operation preserves of the bound;
* `stems_used` — each row stems from the last insertion under its key;
* `in_step_used` — what a whole history preserves.
-/

namespace CacheService

namespace Tier

/-! ## Uses -/

/-- An operation, or an insertion that first asks whether the tier admits the entry. -/
inductive Use
  | op (op : Op)
  | insertAdmitted (key : String) (e : Entry)

/-- The tier after a use. -/
def use (t : Tier) : Use → Tier
  | .op op => t.perform op
  | .insertAdmitted key e => if t.admits (e.footprint key) then (t.insert key e).2 else t

/-- The tier after several uses. -/
def used (t : Tier) (uses : List Use) : Tier := uses.foldl use t

/-- The row that a use puts into the tier. -/
def puts (t : Tier) : Use → Option Row
  | .op (.insert key e) => some (key, e)
  | .insertAdmitted key e => if t.admits (e.footprint key) then some (key, e) else none
  | .op _ => none

/-- No subtraction of a use takes more bytes from the tier than it has (`InsertBacked`),
in whichever order a sweep takes the expired keys. -/
def Backed (t : Tier) : Use → Prop
  | .op (.insert key e) => t.InsertBacked key e
  | .insertAdmitted key e => t.admits (e.footprint key) → t.InsertBacked key e
  | .op (.remove key) => t.RemoveBacked key
  | .op (.removeExpired now) => ∀ keys, keys.Perm (t.expiredKeys now) → SweepBacked keys t
  | .op (.touch _) | .op (.setDeadline _ _) | .op .clear => True

variable {t t' : Tier} {key : String} {e : Entry}

/-- What a use `puts` in depends on the capacity alone. -/
theorem puts_congr (h : t'.capacity = t.capacity) : t'.puts = t.puts := by
  funext u
  cases u with
  | op op => cases op <;> rfl
  | insertAdmitted key e => rw [puts, puts, admits_eq, admits_eq, h]

/-- What is put in after a question is admitted. -/
theorem puts_insertAdmitted {row : Row} (h : t.puts (.insertAdmitted key e) = some row) :
    row = (key, e) ∧ t.admits (e.footprint key) := by
  rw [puts] at h
  split at h
  · next hadmits => exact ⟨(Option.some.inj h).symm, hadmits⟩
  · cases h

/-- Every use of a `Sound` tier is `Backed`. -/
theorem Sound.backed (h : t.Sound) (u : Use) : t.Backed u := by
  cases u with
  | op op =>
      cases op with
      | insert key e => exact h.insertBacked key e
      | remove key => exact h.removeBacked key
      | removeExpired now => exact fun keys _ => h.sweepBacked keys
      | touch | setDeadline | clear => trivial
  | insertAdmitted key e => exact fun _ => h.insertBacked key e

/-- A `use` keeps a tier `Sound`. -/
theorem sound_use (h : t.Sound) (u : Use) : (t.use u).Sound ∧ (t.use u).capacity = t.capacity := by
  cases u with
  | op op => exact sound_perform h op
  | insertAdmitted key e =>
      rw [use]
      split
      · exact sound_perform h (.insert key e)
      · exact ⟨h, rfl⟩

theorem used_concat (t : Tier) (uses : List Use) (u : Use) :
    t.used (uses ++ [u]) = (t.used uses).use u := List.foldl_append

/-- So do several. -/
theorem sound_used (h : t.Sound) (uses : List Use) :
    (t.used uses).Sound ∧ (t.used uses).capacity = t.capacity := by
  induction uses generalizing t with
  | nil => exact ⟨h, rfl⟩
  | cons u uses ih =>
      obtain ⟨hsound, hcap⟩ := sound_use h u
      exact ⟨(ih hsound).1, (ih hsound).2.trans hcap⟩

/-! ## What a use does to the rows -/

/-- The first row is the second with another deadline, or with the same one. -/
def Redated (row' row : Row) : Prop :=
  row'.1 = row.1 ∧ row'.2 = { row.2 with expiresAt := row'.2.expiresAt }

theorem Redated.refl (row : Row) : Redated row row := ⟨rfl, rfl⟩

theorem Redated.trans {row row' row'' : Row} (h' : Redated row'' row') (h : Redated row' row) :
    Redated row'' row :=
  ⟨h'.1.trans h.1, by rw [h'.2, h.2]⟩

/-- A deadline takes no room: `Redated` keeps the footprint. -/
theorem Redated.footprint {row row' : Row} (h : Redated row' row) :
    row'.2.footprint row'.1 = row.2.footprint row.1 := by
  rw [h.1, h.2]
  rfl

/-- Rows that are `Redated` have the same bytes. -/
theorem bytesOf_redated {rows rows' : List Row} (h : List.Forall₂ Redated rows' rows) :
    bytesOf rows' = bytesOf rows := by
  induction h with
  | nil => rfl
  | cons hrow _ ih => rw [bytesOf_cons, bytesOf_cons, hrow.footprint, ih]

/-- The rows of a tier are among the rows of another, up to their order and deadlines
(`Redated`). -/
structure Keeps (t t' : Tier) : Prop where
  capacity : t'.capacity = t.capacity
  rows : ∃ kept, kept.Subperm t.rows ∧ List.Forall₂ Redated t'.rows kept

/-- `Keeps` for fewer rows in another order. -/
theorem keeps_of_subperm (hcap : t'.capacity = t.capacity) (h : t'.rows.Subperm t.rows) :
    t.Keeps t' :=
  ⟨hcap, t'.rows, h, List.forall₂_same.mpr fun row _ => Redated.refl row⟩

theorem Keeps.refl (t : Tier) : t.Keeps t := keeps_of_subperm rfl (.refl _)

/-- `touch` keeps all rows. -/
theorem keeps_touch (h : t.Sound) (key : String) : t.Keeps (t.touch key) := by
  cases he : t.get? key with
  | none =>
      rw [touch_of_get?_eq_none he]
      exact .refl t
  | some e =>
      refine keeps_of_subperm (capacity_touch t key) (List.Perm.subperm ?_)
      rw [rows_touch h he]
      exact (List.perm_append_singleton ..).trans
        (perm_cons_without h.nodup_keys (h.mem_rows.mpr he)).symm

/-- So does `setDeadline`, up to deadlines. -/
theorem keeps_setDeadline (h : t.Sound) (key : String) (x : Option UInt64) :
    t.Keeps (t.setDeadline key x) := by
  cases he : t.get? key with
  | none =>
      rw [setDeadline_of_get?_eq_none he]
      exact .refl t
  | some e =>
      refine ⟨capacity_setDeadline t key x, t.rows, .refl _, ?_⟩
      rw [rows_setDeadline he, List.forall₂_map_left_iff, List.forall₂_same]
      rintro ⟨key', e'⟩ hrow
      split
      · next hk =>
          -- the row of the key is the entry under it
          subst hk
          rw [Option.some.inj ((h.mem_rows.mp hrow).symm.trans he)]
          exact ⟨rfl, rfl⟩
      · exact .refl _

/-- **What a use can do** to the rows of a tier: it inserts the row that it `puts` in,
or `Keeps` some. -/
theorem use_cases (h : t.Sound) (u : Use) :
    (∃ key e, t.puts u = some (key, e) ∧ t.use u = (t.insert key e).2) ∨
      (t.puts u = none ∧ t.Keeps (t.use u)) := by
  cases u with
  | op op =>
      cases op with
      | insert key e => exact .inl ⟨key, e, rfl, rfl⟩
      | touch key => exact .inr ⟨rfl, keeps_touch h key⟩
      | setDeadline key x => exact .inr ⟨rfl, keeps_setDeadline h key x⟩
      | remove key =>
          refine .inr ⟨rfl, keeps_of_subperm (capacity_erase t key) ?_⟩
          rw [use, perform, rows_erase h]
          exact (without_sublist key t.rows).subperm
      | removeExpired now =>
          obtain ⟨hrows, -, hcap⟩ := rows_removeExpired h now
          refine .inr ⟨rfl, keeps_of_subperm hcap ?_⟩
          rw [use, perform, hrows]
          exact List.filter_sublist.subperm
      | clear =>
          refine .inr ⟨rfl, keeps_of_subperm rfl ?_⟩
          rw [use, perform, rows_clear]
          exact List.nil_subperm
  | insertAdmitted key e =>
      rw [puts, use]
      split
      · exact .inl ⟨key, e, rfl, rfl⟩
      · exact .inr ⟨rfl, .refl t⟩

/-! ## The bound -/

/-- A tier is within its bound, or holds a single entry, which it does not admit. -/
def Bounded (t : Tier) : Prop :=
  t.capacity.Allows t.rows ∨
    ∃ row, t.rows = [row] ∧ t.admits (row.2.footprint row.1) = false

theorem Capacity.allows_nil (c : Capacity) : c.Allows [] := by
  cases c <;> exact Nat.zero_le _

/-- A deadline makes no difference to the bound. -/
theorem Capacity.allows_redated {c : Capacity} {rows rows' : List Row}
    (h : List.Forall₂ Redated rows' rows) (ha : c.Allows rows) : c.Allows rows' := by
  cases c with
  | entries max => exact h.length_eq.trans_le ha
  | bytes max => exact (bytesOf_redated h).trans_le ha

/-- Where there is room beside some rows there is room without them. -/
theorem Capacity.hasRoom_nil {c : Capacity} {rows : List Row} {footprint : Nat}
    (h : c.hasRoom rows footprint) : c.hasRoom [] footprint := by
  cases c with
  | entries max =>
      simp only [Capacity.hasRoom, decide_eq_true_iff] at h ⊢
      exact Nat.zero_lt_of_lt h
  | bytes max =>
      simp only [Capacity.hasRoom, decide_eq_true_iff] at h ⊢
      exact (Nat.add_le_add_right (Nat.zero_le _) _).trans h

/-- What `Keeps` some rows of a `Bounded` tier is `Bounded`. -/
theorem Bounded.keeps (hb : t.Bounded) (h : t.Keeps t') : t'.Bounded := by
  obtain ⟨hcap, kept, hsub, hdates⟩ := h
  rw [Bounded, hcap]
  rcases hb with hallows | ⟨row, hrows, hadmits⟩
  · exact .inl (Capacity.allows_redated hdates (Capacity.allows_of_subperm hsub hallows))
  · -- of one row there are left none, or the row itself
    obtain ⟨left, hperm, hleft⟩ := hrows ▸ hsub
    rcases List.sublist_singleton.mp hleft with rfl | rfl
    · obtain rfl := List.nil_perm.mp hperm
      rw [List.forall₂_nil_right_iff.mp hdates]
      exact .inl (Capacity.allows_nil _)
    · obtain rfl := List.perm_singleton.mp hperm.symm
      obtain ⟨row', rest, hdate, hnil, hrows'⟩ := List.forall₂_cons_right_iff.mp hdates
      rw [List.forall₂_nil_right_iff.mp hnil] at hrows'
      refine .inr ⟨row', hrows', ?_⟩
      rw [admits_eq, hcap, hdate.footprint, ← admits_eq]
      exact hadmits

/-- An insertion leaves a tier `Bounded`: an entry that the tier does not admit finds no
room beside another. -/
theorem bounded_insert (h : t.Sound) (key : String) (e : Entry) : (t.insert key e).2.Bounded := by
  have hinsert := inserts_insert h key e
  rw [Bounded, hinsert.capacity]
  cases hadmits : t.admits (e.footprint key) with
  | true => exact .inl (allows_insert h hadmits)
  | false =>
      obtain ⟨kept, -, hrows, hroom, -⟩ := hinsert.rows
      obtain rfl : kept = [] := by
        refine hroom.resolve_left fun hroom => ?_
        rw [admits_eq, Capacity.hasRoom_nil hroom] at hadmits
        cases hadmits
      refine .inr ⟨(key, e), hrows, ?_⟩
      rw [admits_eq, hinsert.capacity, ← admits_eq]
      exact hadmits

/-- **One use** keeps a tier `Bounded`: within its bound but for one entry that it does
not admit. -/
theorem Bounded.use (hb : t.Bounded) (h : t.Sound) (u : Use) : (t.use u).Bounded := by
  rcases use_cases h u with ⟨key, e, -, huse⟩ | ⟨-, hkeeps⟩
  · rw [huse]
    exact bounded_insert h key e
  · exact hb.keeps hkeeps

/-- So do several. -/
theorem Bounded.used (hb : t.Bounded) (h : t.Sound) (uses : List Use) : (t.used uses).Bounded := by
  induction uses generalizing t with
  | nil => exact hb
  | cons u uses ih => exact ih (hb.use h u) (sound_use h u).1

/-! ## Where the rows come from -/

/-- The row is the one that this use put in, up to its deadline, and no later use put
another one in under its key. Whether a use puts its row in depends on the bound alone. -/
def StemsFrom (t : Tier) (u : Use) (later : List Use) (row : Row) : Prop :=
  ∃ put, t.puts u = some put ∧ Redated row put ∧
    ∀ u' ∈ later, ∀ put', t.puts u' = some put' → put'.1 ≠ row.1

/-- A row that is kept stems from where it stemmed from. -/
theorem StemsFrom.keeps {u u' : Use} {later : List Use} {row row' : Row}
    (h : t.StemsFrom u later row) (hdate : Redated row' row)
    (hu' : ∀ put, t.puts u' = some put → put.1 ≠ row.1) : t.StemsFrom u (later ++ [u']) row' := by
  obtain ⟨put, hput, hdate₀, hlater⟩ := h
  refine ⟨put, hput, hdate.trans hdate₀, ?_⟩
  intro v hv put' hput'
  rw [hdate.1]
  rcases List.mem_append.mp hv with hv | hv
  · exact hlater v hv put' hput'
  · rw [List.mem_singleton.mp hv] at hput'
    exact hu' put' hput'

/-- **Every row stems from the last insertion under its key.** -/
theorem stems_used (h : t.Sound) (hempty : t.rows = []) (uses : List Use) :
    ∀ row ∈ (t.used uses).rows, ∃ earlier u later,
      uses = earlier ++ u :: later ∧ t.StemsFrom u later row := by
  induction uses using List.reverseRecOn with
  | nil =>
      intro row hrow
      rw [show t.used [] = t from rfl, hempty] at hrow
      cases hrow
  | append_singleton uses u ih =>
      obtain ⟨hsound, hcap⟩ := sound_used h uses
      have hkept : ∀ row ∈ (t.used uses).rows, ∀ row', Redated row' row →
          (∀ put, t.puts u = some put → put.1 ≠ row.1) → ∃ earlier v later,
            uses ++ [u] = earlier ++ v :: later ∧ t.StemsFrom v later row' := by
        intro row hrow row' hdate hu
        obtain ⟨earlier, v, later, huses, hstems⟩ := ih row hrow
        exact ⟨earlier, v, later ++ [u], by simp [huses], hstems.keeps hdate hu⟩
      intro row hrow
      rw [used_concat] at hrow
      rcases use_cases hsound u with ⟨key, e, hput, huse⟩ | ⟨hput, -, kept, hsub, hdates⟩
      · rw [puts_congr hcap] at hput
        obtain ⟨kept, hold, hrows, -⟩ := (inserts_insert hsound key e).rows
        rw [huse, hrows, List.mem_append, List.mem_singleton] at hrow
        rcases hrow with hrow | rfl
        · -- the other rows are under other keys
          obtain ⟨hmem, hne⟩ := mem_without.mp (hold ▸ List.mem_append_right _ hrow)
          refine hkept row hmem row (.refl row) fun put hput' => ?_
          rw [hput] at hput'
          rw [← Option.some.inj hput']
          exact hne.symm
        · exact ⟨uses, u, [], rfl, _, hput, .refl _, by simp⟩
      · rw [puts_congr hcap] at hput
        obtain ⟨row₀, hmem, hdate⟩ := exists_of_forall₂ hdates hrow
        exact hkept row₀ (hsub.subset hmem) row hdate (by simp [hput])

/-! ## Histories -/

/-- The fields of a tier are in step: entries, order of use and bytes are of the same
keys. -/
structure InStep (t : Tier) : Prop where
  /-- The keys in the order of use are those of the entries, and each stands there once. -/
  order : t.recency.toList.Perm t.entries.keys
  tracked : ∀ key, t.recency.contains key = t.entries.contains key
  bytes : t.usedBytes = (t.entries.toList.map fun row => row.2.footprint row.1).sum

/-- A tier does not exceed its bound. -/
def Within (t : Tier) : Prop :=
  match t.capacity with
  | .entries max => t.size ≤ max.toNat
  | .bytes max => t.usedBytes ≤ max.toNat

/-- **The fields stay in step, and the bound is exceeded by one entry at most.** Take any
history of an empty tier with any bound: insertions that ask whether the tier admits the
entry, insertions that do not, uses, removals, sweeps and changes of deadlines, in any
order. The tracked keys are the keys of the entries, the bytes are the sum of their
footprints, and at no point is more taken off the bytes than there is. The tier is within
its bound, or else it holds exactly one entry, which came in by an insertion that did not
ask, and which the tier does not admit. -/
theorem in_step_used (name : String) (c : Capacity) (uses : List Use) :
    let t₀ := empty name c
    let t := t₀.used uses
    t.capacity = c ∧ t.InStep ∧
    (∀ earlier u later, uses = earlier ++ u :: later → (t₀.used earlier).Backed u) ∧
    (t.Within ∨ ∃ row, t.entries.toList = [row] ∧ ∃ earlier key e later,
      uses = earlier ++ .op (.insert key e) :: later ∧
      t₀.StemsFrom (.op (.insert key e)) later row ∧
      (t₀.used earlier).admits (e.footprint key) = false) := by
  intro t₀ t
  have h₀ : t₀.Sound := sound_empty name c
  obtain ⟨hsound, hcap⟩ : t.Sound ∧ t.capacity = c := sound_used h₀ uses
  refine ⟨hcap, ⟨hsound.order_perm, hsound.contains_eq, hsound.usedBytes_eq⟩,
    fun earlier u later _ => (sound_used h₀ earlier).1.backed u, ?_⟩
  have hb₀ : t₀.Bounded := .inl (rows_empty name c ▸ Capacity.allows_nil _)
  rcases hb₀.used h₀ uses with hallows | ⟨row, hrows, hadmits⟩
  · exact .inl (invariant_of_sound hsound hallows).bound
  · refine .inr ⟨row, ?_, ?_⟩
    · exact List.perm_singleton.mp (hrows ▸ hsound.rows_perm.symm)
    · obtain ⟨earlier, u, later, rfl, put, hput, hdate, hlater⟩ :=
        stems_used h₀ (rows_empty name c) uses row (hrows ▸ List.mem_singleton_self row)
      have hall : ∀ uses footprint, (t₀.used uses).admits footprint = t₀.admits footprint := by
        intro uses footprint
        rw [admits_eq, admits_eq, (sound_used h₀ uses).2]
      rw [hall, hdate.footprint] at hadmits
      cases u with
      | op op =>
          cases op with
          | insert key e =>
              obtain rfl := Option.some.inj hput
              exact ⟨earlier, key, e, later, rfl, ⟨_, rfl, hdate, hlater⟩, (hall ..).trans hadmits⟩
          | touch | setDeadline | remove | removeExpired | clear => cases hput
      | insertAdmitted key e =>
          -- an entry that was asked about is admitted
          obtain ⟨rfl, hasked⟩ := puts_insertAdmitted hput
          rw [hadmits] at hasked
          cases hasked

/-- A tier can be beyond its bound, and the next insertion brings it back. -/
theorem in_step_used_not_admitted :
    let e : Entry := ⟨.empty, 0, 0, none⟩
    let uses : List Use := [.op (.insert "a" e), .op (.insert "bb" e)]
    let t := (empty "heap" (.bytes 65)).used uses
    t.InStep ∧ ((empty "heap" (.bytes 65)).used []).Backed (.op (.insert "a" e)) ∧
      t.capacity = .bytes 65 ∧ t.usedBytes = 66 ∧
        (t.use (.insertAdmitted "a" e)).usedBytes = 65 := by
  intro e uses t
  obtain ⟨hcap, hstep, hbacked, -⟩ := in_step_used "heap" (.bytes 65) uses
  exact ⟨hstep, hbacked [] _ _ rfl, hcap, by cbv, by cbv⟩

end Tier

end CacheService
