import CacheService.Proofs.Store.Cascade

/-!
# CacheService.Proofs.Store.RecencyList

A store whose tiers are bounded in entries is one cache of the entries last
used. As long as no entry expires, its two tiers laid end to end
(`Store.recencyList`) are a list in the order of last use: the off-heap tier
holds what is older than all of the heap tier, and what falls off the list is
what the store loses.

The list (`RecencyList`) has no clock, so a run may not show one either:
`Store.Unexpired` asks that no call finds an expired entry in the store. That
is not enough where the heap tier has no place to offer. There the entry that
a call stores goes straight through `Store.demote`, which drops it if its
lifetime is over at once; `Store.Lasts` excludes this as well.

* `appended_place` — placing a row appends it and drops the first row if the
  two bounds together are exceeded;
* `perform_recencyList` — one call does to the store what its operation does
  to the list;
* `recency_list_of_run` — so does a whole run;
* `read_drops_entry` — and without the second condition it need not.
-/

namespace CacheService

/-! ## Recency lists -/

/-- Keys and values, the most recently used first, with the counters of reads
and of what was dropped. -/
structure RecencyList where
  entries : List (String × ByteArray) := []
  hits : Nat := 0
  misses : Nat := 0
  evictions : Nat := 0
  deriving DecidableEq

namespace RecencyList

open Store (Op Answer)

/-- The list without `key`. -/
def remove (l : RecencyList) (key : String) : RecencyList :=
  { l with entries := l.entries.filter (·.1 ≠ key) }

/-- The list with a key that it does not hold at its front. -/
def push (l : RecencyList) (key : String) (value : ByteArray) : RecencyList :=
  { l with entries := (key, value) :: l.entries }

/-- The list without its last element, if it is longer than `capacity`. -/
def trim (l : RecencyList) (capacity : Nat) : RecencyList :=
  if l.entries.length ≤ capacity then l
  else { l with entries := l.entries.dropLast, evictions := l.evictions + 1 }

/-- The answer of an operation and the list after it. Reading never drops. -/
def perform (capacity : Nat) (l : RecencyList) : Op → Answer × RecencyList
  | .set key value _ => (.done, ((l.remove key).push key value).trim capacity)
  | .get key =>
    match l.entries.lookup key with
    | some value => (.value (some value), { (l.remove key).push key value with hits := l.hits + 1 })
    | none => (.value none, { l with misses := l.misses + 1 })
  | .delete key => (.deleted (l.entries.lookup key).isSome, l.remove key)
  | .clear => (.done, { l with entries := [] })
  | .cleanup => (.removed 0, l)

/-- The list after several operations, by `perform`. -/
def after (capacity : Nat) (l : RecencyList) (ops : List Op) : RecencyList :=
  ops.foldl (fun l op => (l.perform capacity op).2) l

/-- The answers of several operations, one by one. -/
def answers (capacity : Nat) : RecencyList → List Op → List Answer
  | _, [] => []
  | l, op :: ops => (l.perform capacity op).1 :: answers capacity (l.perform capacity op).2 ops

end RecencyList

/-! ## Insertion into a tier bounded in entries -/

namespace Tier

variable {t : Tier} {key : String}

/-- What `insert` pushes out of a tier bounded in entries is what is beyond the bound,
from the oldest row on. -/
theorem insert_entries {max : UInt64} (h : t.Sound) (hc : t.capacity = .entries max)
    (hpos : 0 < max.toNat) (hnew : key ∉ t.rows.map (·.1)) (e : Entry) :
    (t.insert key e).1 = t.rows.take (t.rows.length + 1 - max.toNat) ∧
      (t.insert key e).2.rows = t.rows.drop (t.rows.length + 1 - max.toNat) ++ [(key, e)] := by
  obtain ⟨kept, hold, hrows, henough, hneeded⟩ := (inserts_insert h key e).rows
  generalize (t.insert key e).1 = victims at hold hneeded
  rw [without_eq_self hnew] at hold
  have hlen : victims.length = t.rows.length + 1 - max.toNat := by
    have hsum : t.rows.length = victims.length + kept.length := by rw [hold, List.length_append]
    have hkept : kept.length < max.toNat := by
      rcases henough with hroom | rfl
      · simpa [hc, Capacity.hasRoom] using hroom
      · exact hpos
    rcases List.eq_nil_or_concat victims with rfl | ⟨front, last, rfl⟩
    · simp only [List.length_nil] at hsum ⊢
      omega
    · -- with its last victim the tier was still full
      have hfull := hneeded front [last] (by simp) (by simp)
      simp only [hc, Capacity.hasRoom, List.length_append, List.length_cons, List.length_nil,
        decide_eq_false_iff_not] at hfull
      omega
  rw [← hlen, hrows, hold, List.take_left', List.drop_left']
  · exact ⟨rfl, rfl⟩
  · rfl
  · rfl

end Tier

/-! ## Tiers bounded in entries -/

/-- The number of entries that a bound lets in; a missing tier has no room. -/
def slots (bound : Option UInt64) : Nat := (bound.getD 0).toNat

/-- Two tiers bounded in entries, of which either may be missing. -/
def entryPlan (heap offHeap : Option UInt64) : CapacityPlan :=
  ⟨heap.map .entries, offHeap.map .entries⟩

/-- A tier without slots is empty and takes in nothing; one with slots takes in
every entry. -/
theorem TierOf.entries_cases {bound : Option UInt64} {tier : Option Tier}
    (h : TierOf (bound.map .entries) tier) (footprint : Nat) :
    (slots bound = 0 ∧ rowsOf tier = [] ∧ Store.admitting tier footprint = none) ∨
      ∃ t max, tier = some t ∧ t.Sound ∧ t.capacity = .entries max ∧ max.toNat = slots bound ∧
        0 < slots bound ∧ Store.admitting tier footprint = some t := by
  generalize hc : bound.map Capacity.entries = c at h
  cases h with
  | missing =>
      rw [Option.map_eq_none_iff] at hc
      exact .inl ⟨by simp [slots, hc], rfl, rfl⟩
  | @present t sound hallows =>
      obtain ⟨max, rfl, hmax⟩ := Option.map_eq_some_iff.mp hc
      have hslots : slots (some max) = max.toNat := rfl
      have hadmits : t.admits footprint = decide (0 < max) := by rw [Tier.admits, ← hmax]
      rw [hslots]
      by_cases hz : max.toNat = 0
      · left
        rw [← hmax, Capacity.Allows, hz, Nat.le_zero, List.length_eq_zero_iff] at hallows
        refine ⟨hz, hallows, ?_⟩
        simp [Store.admitting, hadmits, UInt64.lt_iff_toNat_lt, hz]
      · right
        refine ⟨t, max, rfl, sound, hmax.symm, rfl, Nat.pos_of_ne_zero hz, ?_⟩
        rw [Store.admitting_eq_some]
        simp [hadmits, UInt64.lt_iff_toNat_lt, Nat.pos_of_ne_zero hz]

/-- A tier has no more rows than `slots`. -/
theorem TierOf.length_le_slots {bound : Option UInt64} {tier : Option Tier}
    (h : TierOf (bound.map .entries) tier) : (rowsOf tier).length ≤ slots bound := by
  generalize hc : bound.map Capacity.entries = c at h
  cases h with
  | missing => exact Nat.zero_le _
  | @present t sound hallows =>
      obtain ⟨max, rfl, hmax⟩ := Option.map_eq_some_iff.mp hc
      rw [← hmax] at hallows
      exact hallows

namespace Store

variable {heap offHeap : Option UInt64} {policy : ExpiryPolicy} {s : Store} {now : UInt64}
  {key : String} {e : Entry}

/-- A store has no more rows than the `slots` of both tiers. -/
theorem Valid.length_le_slots (hv : s.Valid (entryPlan heap offHeap) policy) :
    s.rows.length ≤ slots heap + slots offHeap := by
  have hheap := hv.heap.length_le_slots
  have hoff := hv.offHeap.length_le_slots
  rw [rows, List.length_append]
  omega

/-- A live row that moves down becomes the last of the off-heap tier; the rows beyond
the `slots` of that tier are lost. -/
theorem demote_rows (hoff : TierOf (offHeap.map .entries) s.offHeap)
    (hnew : key ∉ (rowsOf s.offHeap).map (·.1)) (hlive : e.isExpiredAt now = false) :
    (s.demote now key e).heap = s.heap ∧
      rowsOf (s.demote now key e).offHeap = (rowsOf s.offHeap ++ [(key, e)]).drop
        ((rowsOf s.offHeap).length + 1 - slots offHeap) ∧
      (s.demote now key e).tally =
        s.tally.evict ((rowsOf s.offHeap).length + 1 - slots offHeap) := by
  have hle := hoff.length_le_slots
  rw [demote, if_neg (by simp [hlive])]
  rcases hoff.entries_cases (e.footprint key) with
    ⟨hz, hnil, hadm⟩ | ⟨t, max, htier, sound, hc, hmax, hpos, hadm⟩
  · rw [hadm, hz, hnil]
    exact ⟨rfl, rfl, rfl⟩
  · rw [htier, rowsOf_some] at hnew hle
    obtain ⟨hvictims, hrows⟩ := Tier.insert_entries sound hc (by omega) hnew e
    have hcount : (t.insert key e).1.length = t.rows.length + 1 - max.toNat := by
      rw [hvictims, List.length_take]
      omega
    rw [hadm, htier, ← hmax]
    simp only [rowsOf_some, hcount]
    rw [List.drop_append_of_le_length (by omega)]
    exact ⟨trivial, hrows, trivial⟩

/-- The rows of `s'` are those of `s` and a last one, less what is then beyond
the capacity, from the oldest row on; and this is counted. -/
structure Appended (capacity : Nat) (s : Store) (row : Row) (s' : Store) : Prop where
  rows : s'.rows = (s.rows ++ [row]).drop (s.rows.length + 1 - capacity)
  tally : s'.tally = s.tally.evict (s.rows.length + 1 - capacity)

/-- `Appended` without a heap tier to place the row in: it moves down itself. -/
theorem appended_of_no_slots (hv : s.Valid (entryPlan heap offHeap) policy)
    (hnew : key ∉ s.rows.map (·.1)) (hz : slots heap = 0) (hlive : e.isExpiredAt now = false) :
    Appended (slots heap + slots offHeap) s (key, e) (s.demote now key e) := by
  have hnil : rowsOf s.heap = [] := by
    have hle := hv.heap.length_le_slots
    rw [hz, Nat.le_zero, List.length_eq_zero_iff] at hle
    exact hle
  have hrows : s.rows = rowsOf s.offHeap := by rw [rows, hnil, List.append_nil]
  obtain ⟨hheap, hoff, htally⟩ := demote_rows hv.offHeap (not_mem_tiers hnew).1 hlive
  constructor
  · rw [rows, hheap, hnil, List.append_nil, hoff, hrows, hz, Nat.zero_add]
  · rw [htally, hrows, hz, Nat.zero_add]

/-- `Appended` with room in the heap tier: nothing moves down. -/
theorem appended_of_room (hv : s.Valid (entryPlan heap offHeap) policy) {t : Tier}
    (htier : s.heap = some t) (hroom : t.rows.length + 1 ≤ slots heap)
    (hvictims : (t.insert key e).1 = []) (hkept : (t.insert key e).2.rows = t.rows ++ [(key, e)]) :
    Appended (slots heap + slots offHeap) s (key, e)
      ((t.insert key e).1.foldl (fun s row => s.demote now row.1 row.2)
        { s with heap := some (t.insert key e).2 }) := by
  have hrows : s.rows = rowsOf s.offHeap ++ t.rows := by rw [rows, htier, rowsOf_some]
  have hzero : s.rows.length + 1 - (slots heap + slots offHeap) = 0 := by
    have hle := hv.offHeap.length_le_slots
    rw [hrows, List.length_append]
    omega
  rw [hvictims, List.foldl_nil]
  constructor
  · rw [hzero, List.drop_zero, hrows, rows, rowsOf_some, hkept, List.append_assoc]
  · rw [hzero]
    rfl

/-- `Appended` without: its oldest row becomes the last of the off-heap tier. -/
theorem appended_of_full (hv : s.Valid (entryPlan heap offHeap) policy) {t : Tier} {row : Row}
    {rest : List Row} (htier : s.heap = some t) (hcons : t.rows = row :: rest)
    (hfull : t.rows.length = slots heap) (hlive : row.2.isExpiredAt now = false)
    (hvictims : (t.insert key e).1 = [row]) (hkept : (t.insert key e).2.rows = rest ++ [(key, e)]) :
    Appended (slots heap + slots offHeap) s (key, e)
      ((t.insert key e).1.foldl (fun s row => s.demote now row.1 row.2)
        { s with heap := some (t.insert key e).2 }) := by
  have hrows : s.rows = rowsOf s.offHeap ++ row :: rest := by rw [rows, htier, rowsOf_some, hcons]
  have hnewrow : row.1 ∉ (rowsOf s.offHeap).map (·.1) := by
    apply hv.disjoint
    rw [htier, rowsOf_some, hcons]
    exact List.mem_cons_self
  obtain ⟨hheap, hoff, htally⟩ :=
    demote_rows (s := { s with heap := some (t.insert key e).2 }) hv.offHeap hnewrow hlive
  have hexcess : s.rows.length + 1 - (slots heap + slots offHeap) =
      (rowsOf s.offHeap).length + 1 - slots offHeap := by
    rw [hrows, List.length_append, ← hcons, hfull]
    omega
  have hle : (rowsOf s.offHeap).length + 1 - slots offHeap ≤
      (rowsOf s.offHeap ++ [row]).length := by
    rw [List.length_append, List.length_singleton]
    omega
  have hsplit : s.rows ++ [(key, e)] = (rowsOf s.offHeap ++ [row]) ++ (rest ++ [(key, e)]) := by
    rw [hrows]
    simp
  rw [hvictims, List.foldl_cons, List.foldl_nil]
  constructor
  · rw [hexcess, hsplit, List.drop_append_of_le_length hle, rows, hoff, hheap, rowsOf_some, hkept]
  · rw [htally, hexcess]

/-- **Placing a row** under a new key is `Appended`: it comes behind the rows of both
tiers. -/
theorem appended_place (hv : s.Valid (entryPlan heap offHeap) policy)
    (hnew : key ∉ s.rows.map (·.1)) (hlive : ∀ row ∈ s.rows, row.2.isExpiredAt now = false)
    (he : slots heap = 0 → e.isExpiredAt now = false) :
    Appended (slots heap + slots offHeap) s (key, e) (s.place now key e) := by
  rw [place]
  rcases hv.heap.entries_cases (e.footprint key) with
    ⟨hz, -, hadm⟩ | ⟨t, max, htier, sound, hc, hmax, hpos, hadm⟩
  · rw [hadm]
    exact appended_of_no_slots hv hnew hz (he hz)
  · have hle := hv.heap.length_le_slots
    have hnewheap := (not_mem_tiers hnew).2
    rw [htier, rowsOf_some] at hle hnewheap
    obtain ⟨hvictims, hkept⟩ := Tier.insert_entries sound hc (by omega) hnewheap e
    rw [hmax] at hvictims hkept
    rw [hadm]
    by_cases hroom : t.rows.length + 1 ≤ slots heap
    · rw [Nat.sub_eq_zero_of_le hroom] at hvictims hkept
      exact appended_of_room hv htier hroom hvictims hkept
    · have hone : t.rows.length + 1 - slots heap = 1 := by omega
      obtain ⟨row, rest, hcons⟩ := List.exists_cons_of_length_pos (l := t.rows) (by omega)
      have hrow : row ∈ s.rows := by simp [rows, htier, hcons]
      rw [hone, hcons] at hvictims hkept
      exact appended_of_full hv htier hcons (by omega) (hlive row hrow) hvictims hkept

/-! ## The list of a store -/

/-- The rows without their times, the last one first. -/
def listed (rows : List Row) : List (String × ByteArray) :=
  rows.reverse.map fun row => (row.1, row.2.value)

/-- The two tiers as one list. -/
def recencyList (s : Store) : RecencyList where
  entries := listed s.rows
  hits := s.tally.hits
  misses := s.tally.misses
  evictions := s.tally.evictions

@[simp] theorem length_listed (rows : List Row) : (listed rows).length = rows.length := by
  simp [listed]

theorem listed_concat (rows : List Row) (row : Row) :
    listed (rows ++ [row]) = (row.1, row.2.value) :: listed rows := by
  simp [listed]

theorem listed_tail (rows : List Row) : listed rows.tail = (listed rows).dropLast := by
  cases rows with
  | nil => rfl
  | cons row rows => simp [listed]

/-- `without` takes the key off the list. -/
theorem listed_without (key : String) (rows : List Row) :
    listed (without key rows) = (listed rows).filter (·.1 ≠ key) := by
  rw [listed, listed, without, ← List.filter_reverse, List.filter_map]
  rfl

theorem lookup_listed_eq_none {rows : List Row} (h : key ∉ rows.map (·.1)) :
    (listed rows).lookup key = none := by
  rw [List.lookup_eq_none_iff]
  intro entry hentry
  obtain ⟨row, hrow, rfl⟩ := List.mem_map.mp hentry
  have hne : key ≠ row.1 := by
    rintro rfl
    exact h (List.mem_map_of_mem (List.mem_reverse.mp hrow))
  simpa using hne

/-- A row is found under its key. -/
theorem lookup_listed {rows : List Row} (hn : (rows.map (·.1)).Nodup) (hmem : (key, e) ∈ rows) :
    (listed rows).lookup key = some e.value := by
  obtain ⟨older, newer, rfl⟩ := List.append_of_mem hmem
  have hnewer : (listed newer).lookup key = none := by
    rw [List.map_append, List.map_cons, List.nodup_append, List.nodup_cons] at hn
    exact lookup_listed_eq_none hn.2.1.1
  rw [listed] at hnewer ⊢
  rw [List.reverse_append, List.reverse_cons, List.map_append, List.map_append, List.lookup_append,
    List.lookup_append, hnewer]
  simp

/-- What the list finds is what the store finds. -/
theorem Valid.lookup_eq {plan : CapacityPlan} (hv : s.Valid plan policy) (key : String) :
    s.recencyList.entries.lookup key = (s.find? key).map (·.value) := by
  cases he : s.find? key with
  | some e => exact lookup_listed hv.nodup (hv.find?_eq_some.mp he)
  | none => exact lookup_listed_eq_none (hv.find?_eq_none.mp he)

variable {s' : Store} {row : Row} {capacity : Nat}

/-- Taking a key out of the store removes it from the list. -/
theorem recencyList_remove (hrows : s'.rows = without key s.rows) (htally : s'.tally = s.tally) :
    s'.recencyList = s.recencyList.remove key := by
  simp only [recencyList, RecencyList.remove, hrows, htally, listed_without]

/-- A row that is appended comes to the front of the list. -/
theorem recencyList_push (hrows : s'.rows = s.rows ++ [row]) (htally : s'.tally = s.tally) :
    s'.recencyList = s.recencyList.push row.1 row.2.value := by
  simp only [recencyList, RecencyList.push, hrows, htally, listed_concat]

/-- A hit moves the key to the front and counts. -/
theorem recencyList_hit (hrows : s'.rows = without key s.rows ++ [(key, e)])
    (htally : s'.tally = s.tally.hit) :
    s'.recencyList = { (s.recencyList.remove key).push key e.value with
      hits := s.recencyList.hits + 1 } := by
  simp only [recencyList, RecencyList.remove, RecencyList.push, hrows, htally, listed_concat,
    listed_without]
  rfl

/-- What falls off the list is what is beyond the slots of the tiers. -/
theorem recencyList_trim (h : Appended capacity s row s') (hle : s.rows.length ≤ capacity) :
    s'.recencyList = (s.recencyList.push row.1 row.2.value).trim capacity := by
  have hrows := h.rows
  have htally := h.tally
  by_cases hroom : s.rows.length + 1 ≤ capacity
  · rw [Nat.sub_eq_zero_of_le hroom] at hrows htally
    rw [RecencyList.trim, if_pos (by simpa [RecencyList.push, recencyList] using hroom)]
    exact recencyList_push hrows htally
  · have hone : s.rows.length + 1 - capacity = 1 := by omega
    rw [hone, List.drop_one] at hrows
    rw [hone] at htally
    rw [RecencyList.trim, if_neg (by simpa [RecencyList.push, recencyList] using hroom)]
    simp only [recencyList, RecencyList.push, hrows, htally, listed_tail, listed_concat]
    rfl

/-! ## Runs -/

/-- No stored entry is expired when a call reads the clock. -/
def Unexpired (s : Store) (c : Call) : Prop := ∀ row ∈ s.rows, row.2.isExpiredAt c.now = false

instance (s : Store) (c : Call) : Decidable (s.Unexpired c) :=
  inferInstanceAs (Decidable (∀ row ∈ s.rows, _))

/-- No entry expires where a call could notice. -/
structure Lasts (heap : Option UInt64) (s : Store) (c : Call) : Prop where
  /-- No entry that is stored is expired. -/
  stored : s.Unexpired c
  /-- Without places in the heap tier, the entry that the call is to store is not expired either:
  `demote` would drop it. With a place there it is taken in whatever its deadline. -/
  incoming : slots heap = 0 → ∀ e ∈ s.entryAfter c, e.isExpiredAt c.now = false

instance (heap : Option UInt64) (s : Store) (c : Call) : Decidable (s.Lasts heap c) :=
  decidable_of_iff
    (s.Unexpired c ∧ (slots heap = 0 → ∀ e ∈ s.entryAfter c, e.isExpiredAt c.now = false))
    ⟨fun h => ⟨h.1, h.2⟩, fun h => ⟨h.stored, h.incoming⟩⟩

/-- Each call of a run meets the condition `holds`, in the store that it finds. -/
def Throughout (holds : Store → Call → Prop) : Store → List Call → Prop
  | _, [] => True
  | s, c :: calls => holds s c ∧ Throughout holds (s.perform c).2 calls

instance decidableThroughout (holds : Store → Call → Prop) [∀ s c, Decidable (holds s c)] :
    (s : Store) → (calls : List Call) → Decidable (s.Throughout holds calls)
  | _, [] => inferInstanceAs (Decidable True)
  | s, c :: calls =>
    have := decidableThroughout holds (s.perform c).2 calls
    inferInstanceAs (Decidable (_ ∧ _))

/-- So it is met by a call in the middle, in the store that the calls `before` it leave. -/
theorem Throughout.holds_at {holds : Store → Call → Prop} {before later : List Call} {c : Call}
    (h : s.Throughout holds (before ++ c :: later)) : holds (s.after before) c := by
  induction before generalizing s with
  | nil => exact h.1
  | cons c' before ih => exact ih h.2

/-- A write stores its value. -/
@[simp] theorem value_newEntry (previous : Option Entry) (value : ByteArray) (ttl : UInt32) :
    (newEntry policy previous value ttl now).value = value := by
  unfold newEntry
  split <;> rfl

/-- A read changes no value. -/
@[simp] theorem value_accessed (policy : ExpiryPolicy) (e : Entry) (now : UInt64) :
    (accessed policy e now).value = e.value := by
  rw [← accessed_eq policy e now]

/-- A write does to the list what `RecencyList.perform` does. -/
theorem perform_set (hv : s.Valid (entryPlan heap offHeap) policy) (value : ByteArray)
    (ttl : UInt32) (h : s.Lasts heap ⟨now, .set key value ttl⟩) :
    (s.set now key value ttl).recencyList =
      ((s.recencyList.remove key).push key value).trim (slots heap + slots offHeap) := by
  obtain ⟨hfound, hvalid, hrows⟩ := take_spec hv key
  have hremove : (s.take key).2.recencyList = s.recencyList.remove key :=
    recencyList_remove hrows rfl
  have hnew : key ∉ (s.take key).2.rows.map (·.1) := fresh_of_without hrows
  have hlive : ∀ row ∈ (s.take key).2.rows, row.2.isExpiredAt now = false := by
    intro row hrow
    rw [hrows] at hrow
    exact h.stored row (mem_without.mp hrow).1
  have he : slots heap = 0 →
      (newEntry s.policy (s.take key).1 value ttl now).isExpiredAt now = false := by
    intro hz
    rw [hfound]
    exact h.incoming hz _ rfl
  have htrim := recencyList_trim (appended_place hvalid hnew hlive he) hvalid.length_le_slots
  rw [hremove, value_newEntry] at htrim
  exact htrim

/-- So does a read. -/
theorem perform_get (hv : s.Valid (entryPlan heap offHeap) policy)
    (h : s.Lasts heap ⟨now, .get key⟩) :
    s.recencyList.perform (slots heap + slots offHeap) (.get key) =
      (.value (s.get now key).1, (s.get now key).2.recencyList) := by
  have hread := readCase_get hv now key
  have hlookup := hv.lookup_eq key
  generalize s.get now key = r at hread
  rw [RecencyList.perform]
  cases hread with
  | absent he =>
      rw [he, Option.map_none] at hlookup
      rw [hlookup]
      rfl
  | @expired e s' he hexp =>
      have hlive := h.stored (key, e) (hv.find?_eq_some.mp he)
      rw [hexp] at hlive
      cases hlive
  | @fromHeap e s' he hlive hv' hrows htally =>
      rw [he, Option.map_some] at hlookup
      rw [hlookup, recencyList_hit hrows htally, value_accessed]
  | @fromOffHeap e s' he hlive hv' hrows htally =>
      rw [he, Option.map_some] at hlookup
      have hmem := hv.find?_eq_some.mp he
      have hnew : key ∉ s'.rows.map (·.1) := fresh_of_without hrows
      have hrest : ∀ row ∈ s'.rows, row.2.isExpiredAt now = false := by
        intro row hrow
        rw [hrows] at hrow
        exact h.stored row (mem_without.mp hrow).1
      have hagain : slots heap = 0 → (accessed s.policy e now).isExpiredAt now = false := by
        intro hz
        refine h.incoming hz _ ?_
        simp [entryAfter, live?, he, hlive]
      have hplace := appended_place hv' hnew hrest hagain
      -- the entry leaves as many slots as it takes
      have hroom : s'.rows.length + 1 - (slots heap + slots offHeap) = 0 := by
        have hle := hv.length_le_slots
        have hlen := (perm_cons_without hv.nodup hmem).length_eq
        rw [List.length_cons] at hlen
        rw [hrows]
        omega
      have hrows' := hplace.rows
      have htally' := hplace.tally
      rw [hroom, hrows, List.drop_zero] at hrows'
      rw [hroom, htally] at htally'
      rw [hlookup, recencyList_hit hrows' htally', value_accessed]

/-- **One call** that `Lasts` answers what its operation answers on the list of the
store, and does to that list what the operation does. -/
theorem perform_recencyList (hv : s.Valid (entryPlan heap offHeap) policy) (c : Call)
    (h : s.Lasts heap c) :
    s.recencyList.perform (slots heap + slots offHeap) c.op =
      ((s.perform c).1, (s.perform c).2.recencyList) := by
  obtain ⟨now, op⟩ := c
  cases op with
  | set key value ttl => exact congrArg (Prod.mk _) (perform_set hv value ttl h).symm
  | get key => exact perform_get hv h
  | delete key =>
      obtain ⟨hfound, -, hrows⟩ := delete_spec hv key
      have hremove : (s.delete key).2.recencyList = s.recencyList.remove key :=
        recencyList_remove hrows rfl
      simp only [RecencyList.perform, perform, hv.lookup_eq, hremove, hfound, Option.isSome_map]
  | clear =>
      simp only [RecencyList.perform, perform, recencyList, (clear_spec hv).2]
      rfl
  | cleanup =>
      obtain ⟨hcount, -, hrows, htally⟩ := cleanup_spec hv now
      have hnone : s.rows.filter (·.2.isExpiredAt now) = [] := by
        rw [List.filter_eq_nil_iff]
        intro row hrow
        rw [h.stored row hrow]
        exact Bool.false_ne_true
      have hall : s.rows.filter (!·.2.isExpiredAt now) = s.rows := by
        rw [List.filter_eq_self]
        intro row hrow
        rw [h.stored row hrow]
        rfl
      rw [hnone, List.length_nil] at hcount
      rw [hall] at hrows
      simp only [RecencyList.perform, perform, recencyList, hcount, hrows, htally]
      rfl

/-- **A run** whose calls last answers as the list does, and is the list after it. -/
theorem run_recencyList (hv : s.Valid (entryPlan heap offHeap) policy) (calls : List Call)
    (h : s.Throughout (Lasts heap) calls) :
    s.answers calls =
        s.recencyList.answers (slots heap + slots offHeap) (calls.map (·.op)) ∧
      ∀ before later, calls = before ++ later → (s.after before).recencyList =
        s.recencyList.after (slots heap + slots offHeap) (before.map (·.op)) := by
  induction calls generalizing s with
  | nil =>
      refine ⟨rfl, ?_⟩
      intro before later hsplit
      rw [(List.append_eq_nil_iff.mp hsplit.symm).1]
      rfl
  | cons c calls ih =>
      have hone := perform_recencyList hv c h.1
      obtain ⟨hanswers, hlists⟩ := ih (perform_spec hv c).2.1 h.2
      constructor
      · simp only [answers, List.map_cons, RecencyList.answers, hone, hanswers]
      · intro before later hsplit
        cases before with
        | nil => rfl
        | cons c' before =>
            rw [List.cons_append, List.cons.injEq] at hsplit
            obtain ⟨rfl, hsplit⟩ := hsplit
            rw [after_cons, hlists before later hsplit, List.map_cons, RecencyList.after,
              RecencyList.after, List.foldl_cons, hone]

/-- **Two tiers bounded in entries are one recency list.** Along every run in
which no call finds an expired entry in the store, nor, without places in the
heap tier, is about to store one (`Lasts`), the store answers as a `RecencyList`
with as many places as the two tiers together, and at every step shows its
entries, its size and its counters. -/
theorem recency_list_of_run (heap offHeap : Option UInt64) (policy : ExpiryPolicy)
    (calls : List Call)
    (h : (empty (entryPlan heap offHeap) policy).Throughout (Lasts heap) calls) :
    (empty (entryPlan heap offHeap) policy).answers calls =
        RecencyList.answers (slots heap + slots offHeap) {} (calls.map (·.op)) ∧
      ∀ before later, calls = before ++ later →
        let s := (empty (entryPlan heap offHeap) policy).after before
        let l := RecencyList.after (slots heap + slots offHeap) {} (before.map (·.op))
        s.recencyList = l ∧ s.size = l.entries.length := by
  have hv := valid_empty (entryPlan heap offHeap) policy
  have hempty : (empty (entryPlan heap offHeap) policy).recencyList = {} := by
    rw [recencyList, rows_empty]
    rfl
  obtain ⟨hanswers, hlists⟩ := run_recencyList hv calls h
  rw [hempty] at hanswers hlists
  refine ⟨hanswers, ?_⟩
  intro before later hsplit s l
  have hlist : s.recencyList = l := hlists before later hsplit
  refine ⟨hlist, ?_⟩
  rw [← hlist, (valid_after hv before).size_eq]
  exact (length_listed _).symm

/-- A run on one place in each tier: the read moves the first key up again, so
that the third write drops the second. -/
theorem recency_list_of_run_promoted :
    let plan := entryPlan (some 1) (some 1)
    let calls : List Call := [⟨0, .set "a" ⟨#[1]⟩ 0⟩, ⟨1, .set "b" ⟨#[2]⟩ 9⟩, ⟨2, .get "a"⟩,
      ⟨3, .set "c" ⟨#[3]⟩ 0⟩, ⟨4, .get "b"⟩, ⟨5, .delete "a"⟩]
    (empty plan .entryTtl).answers calls = [.done, .done, .value (some ⟨#[1]⟩), .done, .value none,
        .deleted true] ∧
      ((empty plan .entryTtl).after calls).size = 1 := by
  intro plan calls
  have h : (empty plan .entryTtl).Throughout (Lasts (some 1)) calls := of_decide_eq_true (by cbv)
  obtain ⟨hanswers, hsteps⟩ := recency_list_of_run (some 1) (some 1) .entryTtl calls h
  have hlast := hsteps calls [] (List.append_nil calls).symm
  exact ⟨hanswers.trans (by decide), hlast.2.trans (by decide)⟩

/-- An off-heap tier of one place, and a policy that ends a lifetime at the first
read. That read puts the entry back where it was, and `demote` drops it there: no
call has found an expired entry, but the second read misses what the list has. -/
theorem read_drops_entry :
    let s := empty (entryPlan none (some 1))
      { ExpiryPolicy.entryTtl with onAccess := fun _ => some (.after ⟨0, 0, by decide⟩) }
    let calls : List Call := [⟨5, .set "a" ⟨#[1]⟩ 0⟩, ⟨6, .get "a"⟩, ⟨7, .get "a"⟩]
    s.Throughout Unexpired calls ∧
      s.answers calls = [.done, .value (some ⟨#[1]⟩), .value none] ∧
      RecencyList.answers (slots none + slots (some 1)) {} (calls.map (·.op)) =
        [.done, .value (some ⟨#[1]⟩), .value (some ⟨#[1]⟩)] ∧
      (s.after (calls.take 2)).size = 0 ∧
      (RecencyList.after (slots none + slots (some 1)) {} ((calls.take 2).map (·.op))).entries =
        [("a", ⟨#[1]⟩)] := by
  refine ⟨of_decide_eq_true (by cbv), ?_, ?_, ?_, ?_⟩
  all_goals decide

end Store

end CacheService
