import Mathlib
import CacheService.Proofs.Expiry
import CacheService.Proofs.Store.Settlement

/-!
# CacheService.Proofs.Store.Reference

A store that has lost nothing to its bounds is a plain map (`PlainMap`), whatever the
policy does with deadlines. The store drops expired entries at moments of its own, on a
read, in a sweep or on the way between its tiers; the map keeps them, and the two differ
in nothing that a caller sees.

* `Follows` — every row is one of the map, and no live one of the map is missing.
  Expired rows may go (`follows_of_perm`), and a later clock only lets more of them
  (`follows_later`).
* `follows_perform` — a call that evicts nothing keeps the rows of the store in step
  with the map.
* `plain_map_of_unevicted` — so a run on a clock that never goes back answers, counts
  and ends as the map.
-/

namespace CacheService

open Store (Call Answer)

/-! ## Plain maps -/

/-- Entries under keys. There are no bounds, and an entry whose time is over stays until
it is replaced or deleted. -/
def PlainMap := String → Option Entry

namespace PlainMap

/-- The map without entries. -/
def empty : PlainMap := fun _ => none

/-- The map with `e` under `key`. -/
def insert (m : PlainMap) (key : String) (e : Entry) : PlainMap :=
  fun key' => if key' = key then some e else m key'

/-- The map with nothing under `key`. -/
def erase (m : PlainMap) (key : String) : PlainMap :=
  fun key' => if key' = key then none else m key'

/-- The entry under a key, visible as long as its deadline has not come (`isExpiredAt`). -/
def live? (m : PlainMap) (now : UInt64) (key : String) : Option Entry :=
  (m key).filter fun e => !e.isExpiredAt now

/-- A write is dated as an update of the live entry, or as a creation. -/
def set (policy : ExpiryPolicy) (m : PlainMap) (now : UInt64) (key : String) (value : ByteArray)
    (ttl : UInt32) : PlainMap :=
  let e := Entry.create value ttl now
  match m.live? now key with
  | some old => m.insert key (e.apply (policy.onUpdate old e) now)
  | none => m.insert key (e.apply (policy.onCreation e) now)

/-- A read of a live entry dates it anew if the policy says so. -/
def get (policy : ExpiryPolicy) (m : PlainMap) (now : UInt64) (key : String) :
    Option ByteArray × PlainMap :=
  match m.live? now key with
  | some e =>
    match policy.onAccess e with
    | some expiry => (some e.value, m.insert key (e.apply expiry now))
    | none => (some e.value, m)
  | none => (none, m)

/-- The map after a call. -/
def perform (policy : ExpiryPolicy) (m : PlainMap) (c : Call) : PlainMap :=
  match c.op with
  | .set key value ttl => m.set policy c.now key value ttl
  | .get key => (m.get policy c.now key).2
  | .delete key => m.erase key
  | .clear => empty
  | .cleanup => m

/-- The map after a run, by `perform`. -/
def after (policy : ExpiryPolicy) (m : PlainMap) (calls : List Call) : PlainMap :=
  calls.foldl (perform policy) m

/-- The answers of the reads of a run. -/
def reads (policy : ExpiryPolicy) : PlainMap → List Call → List (Option ByteArray)
  | _, [] => []
  | m, c :: calls =>
    match c.op with
    | .get key => (m.get policy c.now key).1 :: reads policy (m.perform policy c) calls
    | _ => reads policy (m.perform policy c) calls

variable {policy : ExpiryPolicy} {m : PlainMap} {now : UInt64} {key : String} {e : Entry}

/-- What is `live?` is stored and has not expired. -/
theorem live?_eq_some :
    m.live? now key = some e ↔ m key = some e ∧ e.isExpiredAt now = false := by
  rw [live?, Option.filter_eq_some_iff, Bool.not_eq_true']

/-- Inserting what is there changes nothing. -/
theorem insert_eq_self (h : m key = some e) : m.insert key e = m := by
  funext key'
  rw [insert]
  split
  · next heq => rw [heq, h]
  · rfl

/-- A write inserts what `Store.newEntry` makes of it. -/
theorem set_eq (policy : ExpiryPolicy) (m : PlainMap) (now : UInt64) (key : String)
    (value : ByteArray) (ttl : UInt32) :
    m.set policy now key value ttl =
      m.insert key (Store.newEntry policy (m key) value ttl now) := by
  rw [set, Store.newEntry, live?]
  cases (m key).filter fun old => !old.isExpiredAt now with
  | some old => rfl
  | none => rfl

/-- A read of a live entry dates it anew as `Store.accessed` does. -/
theorem get_of_live (h : m.live? now key = some e) :
    m.get policy now key = (some e.value, m.insert key (Store.accessed policy e now)) := by
  rw [get, h, Store.accessed]
  cases hdated : policy.onAccess e with
  | some expiry => simp only [hdated]
  | none => simp only [hdated, insert_eq_self (live?_eq_some.mp h).1]

/-- A read of anything else changes nothing. -/
theorem get_of_dead (h : m.live? now key = none) : m.get policy now key = (none, m) := by
  rw [get, h]

/-- Under `ExpiryPolicy.pinRead`, what has been read once is read at any time after. -/
theorem get_get_pinRead {value : ByteArray} (h : (m.get .pinRead now key).1 = some value)
    (later : UInt64) : ((m.get .pinRead now key).2.get .pinRead later key).1 = some value := by
  cases hlive : m.live? now key with
  | none =>
      rw [get_of_dead hlive] at h
      contradiction
  | some e =>
      rw [get_of_live hlive] at h ⊢
      have hpinned : (m.insert key (Store.accessed .pinRead e now)).live? later key =
          some (Store.accessed .pinRead e now) := live?_eq_some.mpr ⟨if_pos rfl, rfl⟩
      rw [get_of_live hpinned]
      exact h

/-- Under `ExpiryPolicy.keepFirst`, a write in place of a live entry is seen for as long
as that entry's lifetime says, whatever lifetime it comes with. -/
theorem live?_set_keepFirst {old : Entry} (h : m.live? now key = some old) (value : ByteArray)
    (ttl ttl' : UInt32) (later : UInt64) :
    ((m.set .keepFirst now key value ttl).live? later key).map Entry.value =
      ((m.set .keepFirst now key value ttl').live? later key).map Entry.value := by
  have hfound (lifetime : UInt32) : m.set .keepFirst now key value lifetime key =
      some ((Entry.create value lifetime now).apply (.ofTtl old.ttl) now) := by
    rw [set, h]
    exact if_pos rfl
  -- The two entries have one deadline and one value.
  have hdeadline : ((Entry.create value ttl now).apply (.ofTtl old.ttl) now).isExpiredAt later =
      ((Entry.create value ttl' now).apply (.ofTtl old.ttl) now).isExpiredAt later := rfl
  rw [live?, live?, hfound, hfound, Option.filter_some, Option.filter_some, hdeadline]
  split <;> rfl

end PlainMap

/-! ## Rows in step with a map -/

namespace Store

/-- Every row is one of the map, and no live one of the map is missing. -/
structure Follows (now : UInt64) (rows : List Row) (m : PlainMap) : Prop where
  stored : ∀ key e, (key, e) ∈ rows → m key = some e
  kept : ∀ key e, m key = some e → e.isExpiredAt now = false → (key, e) ∈ rows

variable {plan : CapacityPlan} {policy : ExpiryPolicy} {s : Store} {m : PlainMap}
  {now later : UInt64} {key : String} {e : Entry} {rows rows' gone : List Row}

/-- An empty store follows the empty map. -/
theorem follows_empty (now : UInt64) : Follows now [] .empty := ⟨nofun, nofun⟩

/-- `Follows` when a row is written. -/
theorem follows_insert (h : Follows now rows m) (key : String) (e : Entry) :
    Follows now ((key, e) :: without key rows) (m.insert key e) := by
  constructor
  · intro key' e' hmem
    rcases List.mem_cons.mp hmem with heq | hmem
    · cases heq
      exact if_pos rfl
    · obtain ⟨hold, hne⟩ := mem_without.mp hmem
      exact (if_neg hne).trans (h.stored key' e' hold)
  · intro key' e' hfound hlive
    by_cases heq : key' = key
    · rw [PlainMap.insert, if_pos heq, Option.some.injEq] at hfound
      rw [heq, hfound]
      exact List.mem_cons_self
    · rw [PlainMap.insert, if_neg heq] at hfound
      exact List.mem_cons_of_mem _ (mem_without.mpr ⟨h.kept key' e' hfound hlive, heq⟩)

/-- `Follows` when a row is deleted. -/
theorem follows_erase (h : Follows now rows m) (key : String) :
    Follows now (without key rows) (m.erase key) := by
  constructor
  · intro key' e' hmem
    obtain ⟨hold, hne⟩ := mem_without.mp hmem
    exact (if_neg hne).trans (h.stored key' e' hold)
  · intro key' e' hfound hlive
    by_cases heq : key' = key
    · rw [PlainMap.erase, if_pos heq] at hfound
      cases hfound
    · rw [PlainMap.erase, if_neg heq] at hfound
      exact mem_without.mpr ⟨h.kept key' e' hfound hlive, heq⟩

/-- `Follows` when expired rows go. -/
theorem follows_of_perm (h : Follows now rows m) (hperm : rows.Perm (rows' ++ gone))
    (hgone : ∀ row ∈ gone, row.2.isExpiredAt now) : Follows now rows' m := by
  constructor
  · intro key e hmem
    exact h.stored key e (hperm.mem_iff.mpr (List.mem_append_left _ hmem))
  · intro key e hfound hlive
    rcases List.mem_append.mp (hperm.mem_iff.mp (h.kept key e hfound hlive)) with hkept | hmem
    · exact hkept
    · have hexp := hgone (key, e) hmem
      rw [hlive] at hexp
      cases hexp

/-- What is not expired later is not expired now. -/
theorem live_of_later (hle : now ≤ later) (h : e.isExpiredAt later = false) :
    e.isExpiredAt now = false := by
  rw [Entry.isExpiredAt_eq_false] at h ⊢
  exact fun deadline hdeadline => UInt64.lt_of_le_of_lt hle (h deadline hdeadline)

/-- `Follows` at a later time. -/
theorem follows_later (h : Follows now rows m) (hle : now ≤ later) : Follows later rows m :=
  ⟨h.stored, fun key e hfound hlive => h.kept key e hfound (live_of_later hle hlive)⟩

/-- Store and map show the same `live?` entries. -/
theorem live?_eq (hv : s.Valid plan policy) (h : Follows now s.rows m) (key : String) :
    s.live? now key = m.live? now key := by
  ext e
  rw [PlainMap.live?_eq_some, live?, Option.filter_eq_some_iff, hv.find?_eq_some, Bool.not_eq_true']
  constructor
  · rintro ⟨hmem, hlive⟩
    exact ⟨h.stored key e hmem, hlive⟩
  · rintro ⟨hfound, hlive⟩
    exact ⟨h.kept key e hfound hlive, hlive⟩

/-- What a write makes depends on the live entry before it only. -/
theorem newEntry_congr {previous previous' : Option Entry} (value : ByteArray) (ttl : UInt32)
    (h : (previous.filter fun old => !old.isExpiredAt now) =
      previous'.filter fun old => !old.isExpiredAt now) :
    newEntry policy previous value ttl now = newEntry policy previous' value ttl now := by
  rw [newEntry, newEntry, h]

/-- Without bounds (`intended`), a call does to the rows what it does to the map. -/
theorem follows_intended (hv : s.Valid plan policy) {c : Call} (h : Follows c.now s.rows m) :
    Follows c.now (s.intended c) (m.perform policy c) := by
  obtain ⟨now, op⟩ := c
  have hpolicy := hv.policy_eq
  cases op with
  | set key value ttl =>
      have hlive := live?_eq hv h key
      rw [live?, PlainMap.live?] at hlive
      simp only [intended, PlainMap.perform, PlainMap.set_eq, hpolicy,
        newEntry_congr value ttl hlive]
      exact follows_insert h key _
  | get key =>
      simp only [intended, PlainMap.perform, live?_eq hv h key, hpolicy]
      cases hlive : m.live? now key with
      | some e =>
          rw [PlainMap.get_of_live hlive]
          exact follows_insert h key _
      | none =>
          rw [PlainMap.get_of_dead hlive]
          exact h
  | delete key => exact follows_erase h key
  | clear => exact follows_empty now
  | cleanup => exact h

/-! ## Calls and runs that lose nothing -/

/-- Evictions are never taken back. -/
theorem evictions_le_after (hv : s.Valid plan policy) (calls : List Call) :
    s.tally.evictions ≤ (s.after calls).tally.evictions := by
  induction calls generalizing s with
  | nil => exact Nat.le_refl _
  | cons c calls ih =>
      obtain ⟨-, hvalid, evicted, expired, hs⟩ := perform_spec hv c
      have hcall : s.tally.evictions + evicted.length = (s.perform c).2.tally.evictions := by
        rw [hs.tally, ← (losses_counted s c).1]
        rfl
      have hrun := ih hvalid
      rw [after_cons]
      omega

/-- **A call that evicts nothing** keeps `Follows`. -/
theorem follows_perform (hv : s.Valid plan policy) {c : Call} (h : Follows c.now s.rows m)
    (hnone : (s.perform c).2.tally.evictions ≤ s.tally.evictions) :
    Follows c.now (s.perform c).2.rows (m.perform policy c) := by
  obtain ⟨-, -, evicted, expired, hs⟩ := perform_spec hv c
  have hevicted : evicted = [] := by
    rw [hs.tally, ← (losses_counted s c).1] at hnone
    simp only [Tally.evict, Tally.expire] at hnone
    rw [← List.length_eq_zero_iff]
    omega
  have hperm := hs.rows
  rw [hevicted, List.nil_append] at hperm
  exact follows_of_perm (follows_intended hv h) hperm hs.dead

/-- **A run that evicts nothing** on a clock that never goes back keeps it, too. -/
theorem follows_after (hv : s.Valid plan policy) (h : Follows now s.rows m) {calls : List Call}
    (hclock : (now :: calls.map (·.now)).Pairwise (· ≤ ·))
    (hnone : (s.after calls).tally.evictions ≤ s.tally.evictions)
    (hnow : now ≤ later) (hlast : ∀ c ∈ calls, c.now ≤ later) :
    Follows later (s.after calls).rows (m.after policy calls) := by
  induction calls generalizing s m now with
  | nil => exact follows_later h hnow
  | cons c calls ih =>
      have hvalid := (perform_spec hv c).2.1
      have hcall := evictions_le_after hv [c]
      have hrun := evictions_le_after hvalid calls
      rw [after_cons] at hcall hnone ⊢
      rw [after_nil] at hcall
      rw [List.map_cons, List.pairwise_cons] at hclock
      have hstep := follows_later h (hclock.1 c.now List.mem_cons_self)
      exact ih hvalid (follows_perform hv hstep (by omega)) hclock.2 (by omega)
        (hlast c List.mem_cons_self) (fun c' hc' => hlast c' (List.mem_cons_of_mem _ hc'))

theorem pairwise_zero_cons {clocks : List UInt64} (h : clocks.Pairwise (· ≤ ·)) :
    (0 :: clocks).Pairwise (· ≤ ·) :=
  List.pairwise_cons.mpr ⟨fun _ _ => UInt64.zero_le, h⟩

/-- So an empty store follows the empty map through such a run. -/
theorem follows_of_unevicted (plan : CapacityPlan) (policy : ExpiryPolicy) {calls : List Call}
    (hclock : (calls.map (·.now)).Pairwise (· ≤ ·)) (hlast : ∀ c ∈ calls, c.now ≤ later)
    (hnone : ((empty plan policy).after calls).tally.evictions ≤ 0) :
    Follows later ((empty plan policy).after calls).rows (PlainMap.after policy .empty calls) := by
  have hstart : Follows 0 (empty plan policy).rows .empty := by
    rw [rows_empty]
    exact follows_empty 0
  exact follows_after (valid_empty plan policy) hstart (pairwise_zero_cons hclock) hnone
    UInt64.zero_le hlast

/-! ## Reads -/

/-- The answer of a read, if it is one. -/
def Answer.read? : Answer → Option (Option ByteArray)
  | .value found => some found
  | _ => none

/-- The answers of the reads of a run. -/
def reads (s : Store) (calls : List Call) : List (Option ByteArray) :=
  (s.answers calls).filterMap Answer.read?

theorem reads_cons (s : Store) (c : Call) (calls : List Call) :
    s.reads (c :: calls) = (s.perform c).1.read?.toList ++ (s.perform c).2.reads calls := by
  rw [reads, answers, List.filterMap_cons]
  cases (s.perform c).1.read? <;> rfl

/-- A call counts what it reads as a hit or a miss. -/
theorem reads_counted (s : Store) (c : Call) :
    (s.counted c).hits = s.tally.hits + (s.answered c).read?.toList.countP (·.isSome) ∧
      (s.counted c).misses = s.tally.misses + (s.answered c).read?.toList.countP (·.isNone) := by
  obtain ⟨now, op⟩ := c
  cases op with
  | get key =>
      simp only [counted, answered]
      cases s.live? now key with
      | some e => exact ⟨rfl, rfl⟩
      | none => exact ⟨rfl, rfl⟩
  | _ => exact ⟨rfl, rfl⟩

/-- Hits and misses of the `tally` are the reads that found a value and those that did
not. -/
theorem tally_reads (hv : s.Valid plan policy) (calls : List Call) :
    (s.after calls).tally.hits = s.tally.hits + (s.reads calls).countP (·.isSome) ∧
      (s.after calls).tally.misses = s.tally.misses + (s.reads calls).countP (·.isNone) := by
  induction calls generalizing s with
  | nil => exact ⟨rfl, rfl⟩
  | cons c calls ih =>
      obtain ⟨hanswer, hvalid, evicted, expired, hs⟩ := perform_spec hv c
      obtain ⟨hhits, hmisses⟩ := ih hvalid
      obtain ⟨hhit, hmiss⟩ := reads_counted s c
      have htally : (s.perform c).2.tally.hits = (s.counted c).hits ∧
          (s.perform c).2.tally.misses = (s.counted c).misses := by
        rw [hs.tally]
        exact ⟨rfl, rfl⟩
      rw [after_cons, reads_cons, hanswer, List.countP_append, List.countP_append, hhits, hmisses,
        htally.1, htally.2, hhit, hmiss, Nat.add_assoc, Nat.add_assoc]
      exact ⟨rfl, rfl⟩

/-- The reads of store and map answer the same. -/
theorem reads_eq (hv : s.Valid plan policy) (h : Follows now s.rows m) {calls : List Call}
    (hclock : (now :: calls.map (·.now)).Pairwise (· ≤ ·))
    (hnone : (s.after calls).tally.evictions ≤ s.tally.evictions) :
    s.reads calls = m.reads policy calls := by
  induction calls generalizing s m now with
  | nil => rfl
  | cons c calls ih =>
      obtain ⟨hanswer, hvalid, -⟩ := perform_spec hv c
      have hcall := evictions_le_after hv [c]
      have hrun := evictions_le_after hvalid calls
      rw [after_cons] at hcall hnone
      rw [after_nil] at hcall
      rw [List.map_cons, List.pairwise_cons] at hclock
      have hstep := follows_later h (hclock.1 c.now List.mem_cons_self)
      have hrest := ih hvalid (follows_perform hv hstep (by omega)) hclock.2 (by omega)
      rw [reads_cons, hanswer, hrest]
      obtain ⟨now, op⟩ := c
      cases op with
      | get key =>
          have hlive := live?_eq hv hstep key
          simp only [answered, hlive, Answer.read?, PlainMap.reads]
          cases hfound : m.live? now key with
          | some e => rw [PlainMap.get_of_live hfound]; rfl
          | none => rw [PlainMap.get_of_dead hfound]; rfl
      | _ => rfl

/-- A key that the map does not hold expired is found by the store if it is `live?`. -/
theorem found_eq (hv : s.Valid plan policy) (h : Follows now s.rows m)
    (hfresh : ∀ e, m key = some e → e.isExpiredAt now = false) :
    (s.find? key).isSome = (m.live? now key).isSome := by
  rw [← live?_eq hv h key, live?]
  cases hfound : s.find? key with
  | none => rfl
  | some e =>
      have hlive := hfresh e (h.stored key e (hv.find?_eq_some.mp hfound))
      simp [hlive]

/-- **Exact map behaviour while nothing is evicted.** Take a run on a clock that
never goes back, under any policy. If no entry was lost to the bounds, its reads
answered what a plain map answers and are counted as hits and misses, a deletion
answered whether its key was live in the map unless it had expired there, and
the tiers hold the live entries of the map, as they are there. -/
theorem plain_map_of_unevicted (plan : CapacityPlan) (policy : ExpiryPolicy) (calls : List Call)
    (hclock : (calls.map (·.now)).Pairwise (· ≤ ·))
    (hnone : ((empty plan policy).after calls).tally.evictions = 0) :
    let s := (empty plan policy).after calls
    let reads := PlainMap.reads policy .empty calls
    (empty plan policy).reads calls = reads ∧
    s.tally.hits = reads.countP (·.isSome) ∧ s.tally.misses = reads.countP (·.isNone) ∧
    (∀ before now key later, calls = before ++ ⟨now, .delete key⟩ :: later →
      let m := PlainMap.after policy .empty before
      (∀ e, m key = some e → e.isExpiredAt now = false) →
      (((empty plan policy).after before).delete key).1 = (m.live? now key).isSome) ∧
    ∀ now, (∀ c ∈ calls, c.now ≤ now) → ∀ key e,
      (s.heap.bind (·.get? key) = some e ∨ s.offHeap.bind (·.get? key) = some e) ∧
          e.isExpiredAt now = false ↔
        (PlainMap.after policy .empty calls).live? now key = some e := by
  intro s reads
  have hv := valid_empty plan policy
  have hstart : Follows 0 (empty plan policy).rows .empty := by
    rw [rows_empty]
    exact follows_empty 0
  have hreads : (empty plan policy).reads calls = reads :=
    reads_eq hv hstart (pairwise_zero_cons hclock) (Nat.le_of_eq hnone)
  obtain ⟨hhits, hmisses⟩ := tally_reads hv calls
  rw [hreads] at hhits hmisses
  refine ⟨hreads, hhits.trans (Nat.zero_add _), hmisses.trans (Nat.zero_add _), ?_, ?_⟩
  · intro before now key later hsplit m hfresh
    have hvalid := valid_after hv before
    have hlost := evictions_le_after hvalid (⟨now, .delete key⟩ :: later)
    rw [← after_append, ← hsplit, hnone] at hlost
    rw [hsplit, List.map_append, List.pairwise_append] at hclock
    obtain ⟨hbefore, -, hcross⟩ := hclock
    have hlast : ∀ c ∈ before, c.now ≤ now := fun c hc =>
      hcross c.now (List.mem_map_of_mem hc) now List.mem_cons_self
    rw [(delete_spec hvalid key).1]
    exact found_eq hvalid (follows_of_unevicted plan policy hbefore hlast hlost) hfresh
  · intro now hlast key e
    have hvalid := valid_after hv calls
    have hfollows := follows_of_unevicted plan policy hclock hlast (Nat.le_of_eq hnone)
    rw [← live?_eq hvalid hfollows key, live?, Option.filter_eq_some_iff, hvalid.find?_eq_some,
      rows, List.mem_append, hvalid.heap.mem_rows, hvalid.offHeap.mem_rows, Bool.not_eq_true',
      Or.comm]

/-- Under the sliding policy a first key is moved down and up again, a second one
expires below, and nothing is evicted. -/
theorem plain_map_of_unevicted_sliding :
    let plan : CapacityPlan := ⟨some (.entries 1), some (.bytes 200)⟩
    let calls : List Call := [⟨0, .set "a" ⟨#[1]⟩ 2⟩, ⟨1000, .set "b" ⟨#[2]⟩ 1⟩, ⟨1500, .get "a"⟩,
      ⟨2500, .get "b"⟩, ⟨3000, .get "a"⟩, ⟨3000, .delete "a"⟩, ⟨3000, .cleanup⟩]
    (empty plan .sliding).reads calls = [some ⟨#[1]⟩, none, some ⟨#[1]⟩] ∧
      ((empty plan .sliding).after calls).tally.hits = 2 ∧
      ((empty plan .sliding).after (calls.take 5) |>.delete "a").1 = true := by
  intro plan calls
  obtain ⟨hreads, hhits, -, hdeletes, -⟩ :=
    plain_map_of_unevicted plan .sliding calls (by decide) (by cbv)
  have hheld : PlainMap.after .sliding .empty (calls.take 5) "a" =
      some ⟨⟨#[1]⟩, 2, 0, some 5000⟩ := by cbv
  have hfresh : ∀ e, PlainMap.after .sliding .empty (calls.take 5) "a" = some e →
      e.isExpiredAt 3000 = false := by
    intro e he
    rw [hheld] at he
    cases he
    decide
  have hdeleted := hdeletes (calls.take 5) 3000 "a" [⟨3000, .cleanup⟩] rfl hfresh
  exact ⟨hreads.trans (by cbv), hhits.trans (by cbv), hdeleted.trans (by cbv)⟩

end Store

end CacheService
