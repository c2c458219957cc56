import CacheService.Proofs.Store.Invariant
import CacheService.Proofs.Store.Placement

/-!
# CacheService.Proofs.Store.Bounds

The sums of a store fit into words of 64 bits. Bytes, ticks and counters are
natural numbers here, on which no sum overflows; the `Fits` predicates say of
each operation that none of its sums reaches `2 ^ 64`, at no point of a cascade
either. `Proofs.Store.Invariant` says the same of subtractions.

Bytes are bounded by what is held at a time (`Call.footprint` is what comes in),
all else by the number of operations: `Paced n due moving s` says that the store
has been through `n` operations at most, where `due` rows are still to be placed
and `moving` rows are on their way from the heap tier to the off-heap tier. That
each row which moves down was placed before bounds the ticks of the off-heap tier.
-/

namespace CacheService

/-! ## Sums of a tier -/

namespace Tier

/-- Whether there is room is asked before and after every entry that goes, each time by
a sum of the bytes. -/
def EvictFits (footprint : Nat) : (rounds : Nat) → Tier → Prop
  | 0, t => t.usedBytes + footprint < 2 ^ 64
  | rounds + 1, t =>
    t.usedBytes + footprint < 2 ^ 64 ∧
      (t.hasRoomFor footprint = false →
        match t.evictOldest with
        | none => True
        | some (_, t') => EvictFits footprint rounds t')

/-- An insertion makes room (`EvictFits`), and then adds to the bytes and takes the next
tick. -/
def InsertFits (t : Tier) (key : String) (e : Entry) : Prop :=
  let roomy := ((t.erase key).makeRoom (e.footprint key)).2
  EvictFits (e.footprint key) (t.erase key).recency.size (t.erase key) ∧
    roomy.usedBytes + e.footprint key < 2 ^ 64 ∧ roomy.recency.nextTick + 1 < 2 ^ 64

variable {t : Tier} {key : String} {e : Entry}

@[simp] theorem nextTick_erase (t : Tier) (key : String) :
    (t.erase key).recency.nextTick = t.recency.nextTick := by
  unfold erase remove
  cases t.get? key <;> simp [Recency.nextTick_erase]

/-- Making room takes no tick. -/
theorem nextTick_evictFor (h : t.Sound) (footprint rounds : Nat) :
    (t.evictFor footprint rounds).2.recency.nextTick = t.recency.nextTick := by
  induction rounds generalizing t with
  | zero => rfl
  | succ rounds ih =>
      rw [evictFor]
      split
      · rfl
      · rw [evictOldest_eq h]
        cases t.rows with
        | nil => rfl
        | cons row rows => simpa using ih (sound_erase h row.1)

theorem nextTick_makeRoom (h : t.Sound) (footprint : Nat) :
    (t.makeRoom footprint).2.recency.nextTick = t.recency.nextTick := nextTick_evictFor h ..

/-- `insert` takes one tick. -/
theorem nextTick_insert (h : t.Sound) (key : String) (e : Entry) :
    (t.insert key e).2.recency.nextTick = t.recency.nextTick + 1 := by
  have hroomy := nextTick_makeRoom (sound_erase h key) (e.footprint key)
  rw [nextTick_erase] at hroomy
  rw [← hroomy]
  rfl

/-- `setDeadline` takes none. -/
@[simp] theorem nextTick_setDeadline (t : Tier) (key : String) (x : Option UInt64) :
    (t.setDeadline key x).recency = t.recency := by
  unfold setDeadline
  cases t.get? key <;> rfl

/-- `touch` takes one if the key is there. -/
theorem nextTick_touch_le (t : Tier) (key : String) :
    (t.touch key).recency.nextTick ≤ t.recency.nextTick + 1 := by
  unfold touch
  split
  · exact le_rfl
  · exact Nat.le_succ _

@[simp] theorem nextTick_foldl_erase (t : Tier) (keys : List String) :
    (keys.foldl erase t).recency.nextTick = t.recency.nextTick := by
  induction keys generalizing t with
  | nil => rfl
  | cons key keys ih => simp [ih]

/-- `erase` only makes room. -/
theorem Sound.usedBytes_erase_le (h : t.Sound) (key : String) :
    (t.erase key).usedBytes ≤ t.usedBytes := by
  rw [(sound_erase h key).bytes, h.bytes, rows_erase h]
  exact bytesOf_le_of_sublist (without_sublist key t.rows)

/-- Making room fits if the first sum does. -/
theorem Sound.evictFits (h : t.Sound) {footprint : Nat} (hfits : t.usedBytes + footprint < 2 ^ 64)
    (rounds : Nat) : EvictFits footprint rounds t := by
  induction rounds generalizing t with
  | zero => exact hfits
  | succ rounds ih =>
      refine ⟨hfits, fun _ => ?_⟩
      rw [evictOldest_eq h]
      cases t.rows with
      | nil => trivial
      | cons row rows =>
          have hless := h.usedBytes_erase_le row.1
          exact ih (sound_erase h row.1) (by omega)

/-- An insertion fits if the bytes and the tick do. -/
theorem Sound.insertFits (h : t.Sound) (hbytes : t.usedBytes + e.footprint key < 2 ^ 64)
    (htick : t.recency.nextTick + 1 < 2 ^ 64) : t.InsertFits key e := by
  have herased := sound_erase h key
  have hless := h.usedBytes_erase_le key
  have hpush := pushesOut_makeRoom herased (e.footprint key)
  have hroomy : ((t.erase key).makeRoom (e.footprint key)).2.usedBytes ≤
      (t.erase key).usedBytes := by
    rw [hpush.sound.bytes, herased.bytes, hpush.rows, bytesOf_append]
    omega
  refine ⟨herased.evictFits (by omega) _, by omega, ?_⟩
  rw [nextTick_makeRoom herased, nextTick_erase]
  exact htick

end Tier

/-! ## Sums of a store -/

namespace Store

/-- The bytes that a call brings along. -/
def Call.footprint (c : Call) : Nat :=
  match c.op with
  | .set key value _ => key.utf8ByteSize + value.size + Entry.overhead
  | .get _ | .delete _ | .clear | .cleanup => 0

/-- Moving a row down counts it, or inserts it (`InsertFits`) and counts what that
pushes out. -/
def DemoteFits (s : Store) (now : UInt64) (key : String) (e : Entry) : Prop :=
  if e.isExpiredAt now then s.tally.expirations + 1 < 2 ^ 64
  else
    e.footprint key < 2 ^ 64 ∧
      match admitting s.offHeap (e.footprint key) with
      | some t => t.InsertFits key e ∧ s.tally.evictions + (t.insert key e).1.length < 2 ^ 64
      | none => s.tally.evictions + 1 < 2 ^ 64

/-- Several rows, one after the other, each in the store that the one before leaves. -/
def DemoteAllFits (now : UInt64) : List Row → Store → Prop
  | [], _ => True
  | row :: rows, s =>
      s.DemoteFits now row.1 row.2 ∧ DemoteAllFits now rows (s.demote now row.1 row.2)

/-- Placing a row inserts it into the heap tier and moves down what that pushes out, or
moves down the row itself. -/
def PlaceFits (s : Store) (now : UInt64) (key : String) (e : Entry) : Prop :=
  e.footprint key < 2 ^ 64 ∧
    match admitting s.heap (e.footprint key) with
    | some t =>
      t.InsertFits key e ∧
        DemoteAllFits now (t.insert key e).1 { s with heap := some (t.insert key e).2 }
    | none => s.DemoteFits now key e

/-- No sum of a call is too large for a word. -/
def Fits (s : Store) (c : Call) : Prop :=
  match c.op with
  | .set key value ttl =>
    (s.take key).2.PlaceFits c.now key (newEntry s.policy (s.take key).1 value ttl c.now)
  | .get key =>
    s.tally.hits + 1 < 2 ^ 64 ∧ s.tally.misses + 1 < 2 ^ 64 ∧ s.tally.expirations + 1 < 2 ^ 64 ∧
      (∀ t, s.heap = some t → t.recency.nextTick + 1 < 2 ^ 64) ∧
      ∀ e offHeap, takeFrom s.offHeap key = (some e, offHeap) →
        PlaceFits { s with offHeap, tally := s.tally.hit } c.now key (accessed s.policy e c.now)
  | .delete _ | .clear => True
  | .cleanup => s.tally.expirations + (s.cleanup c.now).1 < 2 ^ 64

/-! ## Keeping pace -/

/-- The ticks that a tier has taken; none if it is missing. -/
def ticksOf (tier : Option Tier) : Nat := tier.elim 0 (·.recency.nextTick)

/-- After `n` operations at most, with rows that are still to be placed and to be
moved down, ticks and counters are no larger than `n`. -/
structure Paced (n due moving : Nat) (s : Store) : Prop where
  heapTicks : ticksOf s.heap + due ≤ n
  offHeapTicks : ticksOf s.offHeap + (rowsOf s.heap).length + due + moving ≤ n
  reads : s.tally.hits + s.tally.misses ≤ n
  losses : s.tally.evictions + s.tally.expirations + s.rows.length + due + moving ≤ n

variable {plan : CapacityPlan} {policy : ExpiryPolicy} {s : Store} {n m due moving : Nat}
  {now : UInt64} {key : String} {e : Entry}

/-- `Paced` for more operations. -/
theorem Paced.mono (h : s.Paced n due moving) (hle : n ≤ m) : s.Paced m due moving :=
  ⟨h.heapTicks.trans hle, h.offHeapTicks.trans hle, h.reads.trans hle, h.losses.trans hle⟩

/-- An empty store has been through nothing. -/
theorem paced_empty (plan : CapacityPlan) (policy : ExpiryPolicy) :
    (empty plan policy).Paced 0 0 0 := by
  have hticks (c : Option Capacity) (name : String) : ticksOf (c.map (Tier.empty name)) = 0 := by
    cases c <;> rfl
  have hrows (c : Option Capacity) (name : String) : rowsOf (c.map (Tier.empty name)) = [] := by
    cases c <;> simp
  constructor <;> simp [empty, rows, hticks, hrows]

/-- The bytes of both tiers are those of the `rows`. -/
theorem bytesOf_rows (hv : s.Valid plan policy) :
    bytesOf s.rows = s.heapBytes + s.offHeapBytes := by
  have htier {c : Option Capacity} {tier : Option Tier} (h : TierOf c tier) :
      bytesOf (rowsOf tier) = tier.elim 0 Tier.usedBytes := by
    cases h with
    | missing => rfl
    | present sound _ => exact sound.bytes.symm
  rw [rows, bytesOf_append, htier hv.heap, htier hv.offHeap, Nat.add_comm]
  rfl

/-- Either tier has no more bytes than the `rows`. -/
theorem usedBytes_le (hv : s.Valid plan policy) {t : Tier}
    (ht : s.heap = some t ∨ s.offHeap = some t) :
    t.usedBytes ≤ bytesOf s.rows := by
  rw [bytesOf_rows hv, heapBytes, offHeapBytes]
  obtain ht | ht := ht <;> simp [ht]

/-- An insertion pushes out no more rows than there are. -/
theorem length_victims_le {t : Tier} (h : t.Sound) (key : String) (e : Entry) :
    (t.insert key e).1.length ≤ t.rows.length := by
  obtain ⟨kept, hsplit, -⟩ := (Tier.inserts_insert h key e).rows
  have hlength := (without_sublist key t.rows).length_le
  rw [hsplit, List.length_append] at hlength
  omega

/-! ### Moving down -/

/-- What is lost is counted. -/
theorem losses_settled {before evicted expired : List Row} {tally : Tally}
    (h : Settled now before tally s evicted expired) :
    s.tally.evictions + s.tally.expirations + s.rows.length =
        tally.evictions + tally.expirations + before.length ∧
      s.tally.hits = tally.hits ∧ s.tally.misses = tally.misses := by
  have hlength := h.rows.length_eq
  rw [h.tally]
  simp only [Tally.evict, Tally.expire, List.length_append] at hlength ⊢
  exact ⟨by omega, trivial, trivial⟩

/-- `demote` takes one tick of the off-heap tier at most. -/
theorem ticksOf_demote_le (hv : s.Valid plan policy) (now : UInt64) (key : String) (e : Entry) :
    ticksOf (s.demote now key e).offHeap ≤ ticksOf s.offHeap + 1 := by
  unfold demote
  split
  · exact Nat.le_succ _
  · split
    · next t hadm =>
        obtain ⟨ht, -⟩ := admitting_eq_some.mp hadm
        have htick := Tier.nextTick_insert (hv.sound (.inr ht)) key e
        simp only [ticksOf, ht, Option.elim_some]
        omega
    · exact Nat.le_succ _

/-- A row that moves down is no more on its way. -/
theorem Paced.demote (hv : s.Valid plan policy) (hnew : key ∉ s.rows.map (·.1))
    (h : s.Paced n 0 (moving + 1)) : (s.demote now key e).Paced n 0 moving := by
  obtain ⟨-, evicted, expired, hsettled⟩ := demote_spec hv hnew now e
  obtain ⟨hlosses, hhits, hmisses⟩ := losses_settled hsettled
  have hticks := ticksOf_demote_le hv now key e
  obtain ⟨hheap, hoff, hreads, hlost⟩ := h
  rw [List.length_cons] at hlosses
  constructor
  · rwa [heap_demote]
  · rw [heap_demote]
    omega
  · omega
  · omega

/-- It fits if neither operations nor bytes are too many. -/
theorem Paced.demoteFits (hv : s.Valid plan policy) (h : s.Paced n 0 (moving + 1)) (hn : n < 2 ^ 64)
    (hbytes : bytesOf s.rows + e.footprint key < 2 ^ 64) : s.DemoteFits now key e := by
  have hlosses := h.losses
  unfold DemoteFits
  split
  · omega
  · refine ⟨by omega, ?_⟩
    split
    · next t hadm =>
        obtain ⟨ht, -⟩ := admitting_eq_some.mp hadm
        have hsound := hv.sound (.inr ht)
        have hused := usedBytes_le hv (.inr ht)
        have hvictims := length_victims_le hsound key e
        have hticks := h.offHeapTicks
        simp only [rows, ht, rowsOf_some, ticksOf, Option.elim_some, List.length_append]
          at hlosses hticks
        exact ⟨hsound.insertFits (by omega) (by omega), by omega⟩
    · omega

/-- Several rows move down, one after the other. What is pushed out on the way only
makes room for the rows that follow. -/
theorem Paced.demoteAll (hv : s.Valid plan policy) {victims : List Row}
    (hkeys : ((victims ++ s.rows).map (·.1)).Nodup) (h : s.Paced n 0 victims.length)
    (now : UInt64) :
    (n < 2 ^ 64 → bytesOf (victims ++ s.rows) < 2 ^ 64 → DemoteAllFits now victims s) ∧
      (victims.foldl (fun s row => s.demote now row.1 row.2) s).Paced n 0 0 := by
  induction victims generalizing s with
  | nil => exact ⟨fun _ _ => trivial, h⟩
  | cons row victims ih =>
      have hnew : row.1 ∉ s.rows.map (·.1) := by
        rw [List.cons_append, List.map_cons, List.nodup_cons, List.map_append] at hkeys
        exact fun hmem => hkeys.1 (List.mem_append_right _ hmem)
      obtain ⟨hvalid, evicted, expired, hsettled⟩ := demote_spec hv hnew now row.2
      have hleft := hsettled.subperm victims
      have hless := bytesOf_le_of_subperm hleft
      have hrest := ih hvalid (nodup_keys_of_subperm hleft hkeys) (h.demote hv hnew)
      refine ⟨fun hn hbytes => ⟨h.demoteFits hv hn ?_, hrest.1 hn (hless.trans_lt hbytes)⟩, hrest.2⟩
      simp only [List.cons_append, bytesOf_cons, bytesOf_append] at hbytes
      omega

/-! ### Placing -/

/-- **A row that is placed**, with all that moves down for it, keeps `Paced`, and fits. -/
theorem Paced.place (hv : s.Valid plan policy) (hnew : key ∉ s.rows.map (·.1)) (h : s.Paced n 1 0)
    (now : UInt64) :
    (n < 2 ^ 64 → bytesOf s.rows + e.footprint key < 2 ^ 64 → s.PlaceFits now key e) ∧
      (s.place now key e).Paced n 0 0 := by
  unfold PlaceFits Store.place
  cases hadm : admitting s.heap (e.footprint key) with
  | none =>
      have hdown : s.Paced n 0 (0 + 1) := by
        obtain ⟨hheap, hoff, hreads, hlost⟩ := h
        exact ⟨by omega, by omega, hreads, by omega⟩
      exact ⟨fun hn hbytes => ⟨by omega, hdown.demoteFits hv hn hbytes⟩, hdown.demote hv hnew⟩
  | some t =>
      obtain ⟨hvalid, hperm⟩ := insertHeap_spec hv hnew hadm
      have ht := (admitting_eq_some.mp hadm).1
      have hsound := hv.sound (.inl ht)
      have hused := usedBytes_le hv (.inl ht)
      have htick := Tier.nextTick_insert hsound key e
      have hkeys := (hperm.map (·.1)).nodup_iff.mp (List.nodup_cons.mpr ⟨hnew, hv.nodup⟩)
      have hlength := hperm.length_eq
      have hmoved :
          bytesOf ((t.insert key e).1 ++ rows { s with heap := some (t.insert key e).2 }) =
          e.footprint key + bytesOf s.rows := (bytesOf_perm hperm).symm.trans (bytesOf_cons ..)
      obtain ⟨hheap, hoff, hreads, hlost⟩ := h
      simp only [ht, ticksOf, Option.elim_some, rowsOf_some] at hheap hoff
      have hdown :
          Paced n 0 (t.insert key e).1.length { s with heap := some (t.insert key e).2 } := by
        simp only [rows, ht, rowsOf_some, List.length_append, List.length_cons] at hlength hlost
        constructor
        · simp only [ticksOf, Option.elim_some]
          omega
        · simp only [ticksOf, rowsOf_some]
          omega
        · exact hreads
        · simp only [rows, rowsOf_some, List.length_append]
          omega
      have hall := hdown.demoteAll hvalid hkeys now
      refine ⟨fun hn hbytes => ⟨by omega, hsound.insertFits (by omega) (by omega), ?_⟩, hall.2⟩
      exact hall.1 hn (by omega)

/-! ### Operations -/

theorem ticksOf_takeFrom (tier : Option Tier) (key : String) :
    ticksOf (takeFrom tier key).2 = ticksOf tier := by
  cases tier with
  | none => rfl
  | some t =>
      rw [takeFrom, Tier.remove_eq]
      cases t.get? key with
      | none => rfl
      | some e => exact Tier.nextTick_erase t key

theorem ticksOf_clear (tier : Option Tier) : ticksOf (tier.map Tier.clear) = ticksOf tier := by
  cases tier <;> rfl

theorem ticksOf_sweepTier (now : UInt64) (tier : Option Tier) :
    ticksOf (sweepTier now tier).2 = ticksOf tier := by
  cases tier with
  | none => rfl
  | some t => exact Tier.nextTick_foldl_erase t _

/-- Taking a key out keeps `Paced`. -/
theorem Paced.take (hv : s.Valid plan policy) (h : s.Paced n due moving) (key : String) :
    (s.take key).2.Paced n due moving := by
  obtain ⟨hheap, hoff, hreads, hlost⟩ := h
  have hfewer := (without_sublist key s.rows).length_le
  have hfewer' := (without_sublist key (rowsOf s.heap)).length_le
  have hrows := (take_spec hv key).2.2
  have hheapRows : rowsOf (s.take key).2.heap = without key (rowsOf s.heap) :=
    (hv.heap.takeFrom key).2.2
  have hheapTicks : ticksOf (s.take key).2.heap = ticksOf s.heap := ticksOf_takeFrom s.heap key
  have hoffTicks : ticksOf (s.take key).2.offHeap = ticksOf s.offHeap :=
    ticksOf_takeFrom s.offHeap key
  constructor
  · rwa [hheapTicks]
  · rw [hoffTicks, hheapRows]
    omega
  · exact hreads
  · rw [hrows]
    show s.tally.evictions + s.tally.expirations + _ + _ + _ ≤ n
    omega

/-- What a write makes has the footprint that the call brings along. -/
@[simp] theorem footprint_newEntry (previous : Option Entry) (value : ByteArray) (ttl : UInt32)
    (now : UInt64) (key : String) :
    (newEntry policy previous value ttl now).footprint key =
      key.utf8ByteSize + value.size + Entry.overhead := by
  unfold newEntry
  dsimp only
  split <;> rfl

/-- A read changes no footprint. -/
@[simp] theorem footprint_accessed (policy : ExpiryPolicy) (e : Entry) (now : UInt64)
    (key : String) :
    (accessed policy e now).footprint key = e.footprint key := by
  unfold accessed
  split <;> rfl

/-- **A write** is one operation, and fits. -/
theorem Paced.set (hv : s.Valid plan policy) (h : s.Paced n 0 0) (now : UInt64) {value : ByteArray}
    (ttl : UInt32) :
    (n + 1 < 2 ^ 64 → bytesOf s.rows + (key.utf8ByteSize + value.size + Entry.overhead) < 2 ^ 64 →
        s.Fits ⟨now, .set key value ttl⟩) ∧
      (s.set now key value ttl).Paced (n + 1) 0 0 := by
  obtain ⟨-, hvalid, hrows⟩ := take_spec hv key
  have hfewer := bytesOf_le_of_sublist (without_sublist key s.rows)
  obtain ⟨hheap, hoff, hreads, hlost⟩ := h.take hv key
  have hplaced : (s.take key).2.Paced (n + 1) 1 0 := ⟨by omega, by omega, by omega, by omega⟩
  rw [← hrows] at hfewer
  have hplace := hplaced.place hvalid (fresh_of_without hrows) now
    (e := newEntry s.policy (s.take key).1 value ttl now)
  exact ⟨fun hn hbytes => hplace.1 hn (by rw [footprint_newEntry]; omega), hplace.2⟩

/-- A row is taken out of the off-heap tier. -/
theorem takenOffHeap_spec (hv : s.Valid plan policy) {offHeap : Option Tier}
    (h : takeFrom s.offHeap key = (some e, offHeap)) (tally : Tally) :
    Valid plan policy { s with offHeap, tally } ∧
      rows { s with offHeap, tally } = without key s.rows ∧
      s.rows.Perm ((key, e) :: without key s.rows) := by
  obtain ⟨hfound, hoffHeap, hrows⟩ := hv.offHeap.takeFrom key
  rw [h] at hfound hoffHeap hrows
  have hin : (key, e) ∈ rowsOf s.offHeap := hv.offHeap.mem_rows.mpr hfound.symm
  have hapart : key ∉ (rowsOf s.heap).map (·.1) := fun hheap =>
    hv.disjoint hheap (List.mem_map_of_mem hin)
  have hrest : rows { s with offHeap, tally } = without key s.rows := by
    rw [without_rows, without_eq_self hapart, ← hrows]
    rfl
  exact ⟨.of_rows hv.policy_eq hv.heap hoffHeap hrest (nodup_without hv key), hrest,
    perm_cons_without hv.nodup (List.mem_append_left _ hin)⟩

/-- A read of the off-heap tier places anew what it finds. -/
theorem Paced.getOffHeap (hv : s.Valid plan policy) (h : s.Paced n 0 0) (now : UInt64)
    (key : String) :
    (n + 1 < 2 ^ 64 → bytesOf s.rows < 2 ^ 64 →
      ∀ e offHeap, takeFrom s.offHeap key = (some e, offHeap) →
        PlaceFits { s with offHeap, tally := s.tally.hit } now key (accessed s.policy e now)) ∧
      (s.getOffHeap now key).2.Paced (n + 1) 0 0 := by
  obtain ⟨hheap, hoff, hreads, hlost⟩ := h
  unfold Store.getOffHeap
  rcases htaken : takeFrom s.offHeap key with ⟨_ | e, offHeap⟩
  · refine ⟨by simp, Nat.le_succ_of_le hheap, Nat.le_succ_of_le hoff, ?_, Nat.le_succ_of_le hlost⟩
    show s.tally.hits + (s.tally.misses + 1) ≤ n + 1
    omega
  · obtain ⟨hvalid, hrest, hperm⟩ := takenOffHeap_spec hv htaken s.tally.hit
    have hlength := hperm.length_eq
    rw [List.length_cons] at hlength
    have hticks : ticksOf offHeap = ticksOf s.offHeap := by
      rw [← ticksOf_takeFrom s.offHeap key, htaken]
    have hplaced : Paced (n + 1) 1 0 { s with offHeap, tally := s.tally.hit } := by
      refine ⟨Nat.succ_le_succ hheap, ?_, ?_, ?_⟩
      · show ticksOf offHeap + (rowsOf s.heap).length + 1 + 0 ≤ n + 1
        omega
      · show s.tally.hits + 1 + s.tally.misses ≤ n + 1
        omega
      · rw [hrest]
        show s.tally.evictions + s.tally.expirations + _ + 1 + 0 ≤ n + 1
        omega
    have hplace := hplaced.place hvalid (fresh_of_without hrest) now (e := accessed s.policy e now)
    constructor
    · rintro hn hbytes e' offHeap' ⟨⟩
      have hmoved : bytesOf s.rows = e.footprint key + bytesOf (without key s.rows) :=
        (bytesOf_perm hperm).trans (bytesOf_cons ..)
      refine hplace.1 hn ?_
      rw [footprint_accessed, hrest]
      omega
    · dsimp only
      split
      · -- the row has expired, and is counted in place of being placed
        obtain ⟨-, hrest', -⟩ := takenOffHeap_spec hv htaken (s.tally.expire 1).miss
        refine ⟨Nat.le_succ_of_le hheap, Nat.le_of_succ_le hplaced.offHeapTicks, ?_, ?_⟩
        · show s.tally.hits + (s.tally.misses + 1) ≤ n + 1
          omega
        · rw [hrest']
          show s.tally.evictions + (s.tally.expirations + 1) + _ + 0 + 0 ≤ n + 1
          omega
      · exact hplace.2

/-- **A read** is one operation at most, and fits. -/
theorem Paced.get (hv : s.Valid plan policy) (h : s.Paced n 0 0) (now : UInt64) (key : String) :
    (n + 1 < 2 ^ 64 → bytesOf s.rows < 2 ^ 64 → s.Fits ⟨now, .get key⟩) ∧
      (s.get now key).2.Paced (n + 1) 0 0 := by
  obtain ⟨hplaces, hoffHeap⟩ := h.getOffHeap hv now key
  obtain ⟨hheap, hoff, hreads, hlost⟩ := h
  constructor
  · intro hn hbytes
    refine ⟨by omega, by omega, by omega, fun t ht => ?_, hplaces hn hbytes⟩
    simp only [ticksOf, ht, Option.elim_some] at hheap
    omega
  · unfold Store.get
    cases ht : s.heap with
    | none => exact hoffHeap
    | some t =>
        dsimp only
        cases he : t.get? key with
        | none => exact hoffHeap
        | some e =>
            have hsound := hv.sound (.inl ht)
            have hperm := perm_cons_without hsound.nodup_keys (hsound.mem_rows.mpr he)
            have hlength := hperm.length_eq
            simp only [rows, ht, ticksOf, rowsOf_some, Option.elim_some, List.length_append,
              List.length_cons] at hheap hoff hlost hlength
            dsimp only
            split
            · constructor
              · simpa [ticksOf] using Nat.le_succ_of_le hheap
              · simp only [ticksOf, rowsOf_some, Tier.rows_erase hsound]
                omega
              · simp only [Tally.miss, Tally.expire]
                omega
              · simp only [rows, rowsOf_some, Tier.rows_erase hsound,
                  List.length_append, Tally.miss,
                  Tally.expire]
                omega
            · have htick := Tier.nextTick_touch_le
                (t.setDeadline key (accessed s.policy e now).expiresAt) key
              rw [Tier.nextTick_setDeadline] at htick
              have hdated :=
                Tier.rows_touch_setDeadline hsound he (accessed s.policy e now).expiresAt
              constructor
              · simp only [ticksOf, Option.elim_some]
                omega
              · simp only [ticksOf, rowsOf_some, hdated, List.length_append, List.length_singleton]
                omega
              · simp only [Tally.hit]
                omega
              · simp only [rows, rowsOf_some, hdated, List.length_append, List.length_singleton,
                  Tally.hit]
                omega

theorem Paced.clear (hv : s.Valid plan policy) (h : s.Paced n 0 0) : s.clear.Paced n 0 0 := by
  have hgone := (clear_spec hv).2
  have hrows : rowsOf s.clear.heap = [] := (List.append_eq_nil_iff.mp hgone).2
  have hheapTicks : ticksOf s.clear.heap = ticksOf s.heap := ticksOf_clear s.heap
  have hoffTicks : ticksOf s.clear.offHeap = ticksOf s.offHeap := ticksOf_clear s.offHeap
  have htally : s.clear.tally = s.tally := rfl
  obtain ⟨hheap, hoff, hreads, hlost⟩ := h
  constructor
  · rwa [hheapTicks]
  · rw [hoffTicks, hrows, List.length_nil]
    omega
  · rwa [htally]
  · rw [htally, hgone, List.length_nil]
    omega

/-- **A sweep** counts what it removes. -/
theorem Paced.cleanup (hv : s.Valid plan policy) (h : s.Paced n 0 0) (now : UInt64) :
    (n < 2 ^ 64 → s.Fits ⟨now, .cleanup⟩) ∧ (s.cleanup now).2.Paced n 0 0 := by
  obtain ⟨hcount, -, hrows, htally⟩ := cleanup_spec hv now
  have hsplit := (List.filter_append_perm (·.2.isExpiredAt now) s.rows).length_eq
  have hheapRows : rowsOf (s.cleanup now).2.heap = (rowsOf s.heap).filter (!·.2.isExpiredAt now) :=
    (hv.heap.sweepTier now).2.2
  have hfewer := List.length_filter_le (!·.2.isExpiredAt now) (rowsOf s.heap)
  have hheapTicks : ticksOf (s.cleanup now).2.heap = ticksOf s.heap := ticksOf_sweepTier now s.heap
  have hoffTicks : ticksOf (s.cleanup now).2.offHeap = ticksOf s.offHeap :=
    ticksOf_sweepTier now s.offHeap
  obtain ⟨hheap, hoff, hreads, hlost⟩ := h
  rw [List.length_append, ← hcount, ← hrows] at hsplit
  constructor
  · intro hn
    show s.tally.expirations + (s.cleanup now).1 < 2 ^ 64
    omega
  · constructor
    · rwa [hheapTicks]
    · rw [hoffTicks, hheapRows]
      omega
    · rwa [htally]
    · rw [htally]
      simp only [Tally.expire]
      omega

/-- **One call** of any kind: it `Fits` if neither the operations nor the bytes that are
held with it are too many. -/
theorem Paced.perform (hv : s.Valid plan policy) (h : s.Paced n 0 0) (c : Call) :
    (n + 1 < 2 ^ 64 → bytesOf s.rows + c.footprint < 2 ^ 64 → s.Fits c) ∧
      (s.perform c).2.Paced (n + 1) 0 0 := by
  obtain ⟨now, op⟩ := c
  cases op with
  | set key value ttl => exact h.set hv now ttl
  | get key => exact h.get hv now key
  | delete key => exact ⟨fun _ _ => trivial, (h.take hv key).mono (Nat.le_succ n)⟩
  | clear => exact ⟨fun _ _ => trivial, (h.clear hv).mono (Nat.le_succ n)⟩
  | cleanup =>
      have hswept := h.cleanup hv now
      exact ⟨fun hn _ => hswept.1 (by omega), hswept.2.mono (Nat.le_succ n)⟩

/-! ## Runs -/

/-- **A run** keeps `Paced` with its operations. -/
theorem Paced.after (hv : s.Valid plan policy) (h : s.Paced n 0 0) (calls : List Call) :
    (s.after calls).Paced (n + calls.length) 0 0 := by
  induction calls generalizing s n with
  | nil => exact h
  | cons c calls ih =>
      have hrest := ih (perform_spec hv c).2.1 (h.perform hv c).2
      rwa [Nat.add_assoc, Nat.add_comm 1] at hrest

/-- A call leaves no more bytes than there were and than its `footprint`. -/
theorem bytesOf_perform_le (hv : s.Valid plan policy) (c : Call) :
    bytesOf (s.perform c).2.rows ≤ bytesOf s.rows + c.footprint := by
  obtain ⟨-, -, evicted, expired, hsettled⟩ := perform_spec hv c
  have hkept : bytesOf (s.perform c).2.rows ≤ bytesOf (s.intended c) := by
    rw [bytesOf_perm hsettled.rows, bytesOf_append, bytesOf_append]
    omega
  refine hkept.trans ?_
  obtain ⟨now, op⟩ := c
  have hwithout (key : String) := bytesOf_le_of_sublist (without_sublist key s.rows)
  cases op with
  | set key value ttl =>
      have hless := hwithout key
      simp only [intended, Call.footprint, bytesOf_cons, footprint_newEntry]
      omega
  | get key =>
      unfold intended
      dsimp only
      split
      · next e he =>
          have hin := hv.find?_eq_some.mp (Option.filter_eq_some_iff.mp he).1
          have hsame := bytesOf_perm (perm_cons_without hv.nodup hin)
          rw [bytesOf_cons] at hsame ⊢
          rw [footprint_accessed, hsame]
          exact le_rfl
      · exact le_rfl
  | delete key => exact hwithout key
  | clear => exact Nat.zero_le _
  | cleanup => exact le_rfl

/-- Nor does a run. -/
theorem bytesOf_after_le (hv : s.Valid plan policy) (calls : List Call) :
    bytesOf (s.after calls).rows ≤ bytesOf s.rows + (calls.map Call.footprint).sum := by
  induction calls generalizing s with
  | nil => exact le_rfl
  | cons c calls ih =>
      have hfirst := bytesOf_perform_le hv c
      have hrest := ih (perform_spec hv c).2.1
      simp only [after_cons, List.map_cons, List.sum_cons]
      omega

end Store

end CacheService
