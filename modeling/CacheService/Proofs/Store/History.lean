import Mathlib
import CacheService.Proofs.Expiry
import CacheService.Proofs.Store.Settlement

/-!
# CacheService.Proofs.Store.History

What a read may answer, in terms of the calls before it, under the policy that dates
each entry by the lifetime it was written with.

* `LastWrote` — the last call about what is stored under a key wrote the entry. Every
  entry that is found was written so (`find?_after`), by one call at a time
  (`find?_perform`).
* `Removes` — a call found the key absent or removed it. A key that is absent stays so
  until it is written again (`find?_perform_of_absent`).
* `read_of_last_write` — so a value read is that of the last write of its key, not
  deleted or cleared since and not expired.
-/

namespace CacheService

namespace Entry

/-- The entry that a write of `value` at `now` makes. -/
def written (now : UInt64) (value : ByteArray) (ttl : UInt32) : Entry :=
  (create value ttl now).apply (.ofTtl ttl) now

/-- A live entry has no lifetime, or its lifetime is not over. -/
theorem lt_of_live {t₀ now : UInt64} {value : ByteArray} {ttl : UInt32}
    (h : (written t₀ value ttl).isExpiredAt now = false) :
    ttl = 0 ∨ now.toNat < min (t₀.toNat + 1000 * ttl.toNat) (2 ^ 64 - 1) :=
  live_ofTtl.mp h

end Entry

namespace Store

/-! ## Entries and the calls that wrote them -/

/-- The operation says anew what is stored under `key`. -/
def Op.Overwrites (op : Op) (key : String) : Prop :=
  match op with
  | .set key' _ _ | .delete key' => key' = key
  | .clear => True
  | .get _ | .cleanup => False

/-- The last call about what is stored under `key` wrote this entry. -/
def LastWrote (past : List Call) (key : String) (t₀ : UInt64) (value : ByteArray) (ttl : UInt32) :
    Prop :=
  ∃ before between, past = before ++ ⟨t₀, .set key value ttl⟩ :: between ∧
    ∀ c ∈ between, ¬ c.op.Overwrites key

/-- `LastWrote` stays through a call that does not overwrite the key. -/
theorem LastWrote.snoc {past : List Call} {key : String} {t₀ : UInt64} {value : ByteArray}
    {ttl : UInt32} (h : LastWrote past key t₀ value ttl) {c : Call} (hc : ¬ c.op.Overwrites key) :
    LastWrote (past ++ [c]) key t₀ value ttl := by
  obtain ⟨before, between, rfl, hbetween⟩ := h
  refine ⟨before, between ++ [c], by simp, ?_⟩
  intro c' hc'
  rcases List.mem_append.mp hc' with h | h
  · exact hbetween c' h
  · rw [List.mem_singleton.mp h]
    exact hc

/-- Under `entryTtl`, an update is dated as a creation. -/
theorem newEntry_entryTtl (previous : Option Entry) (value : ByteArray) (ttl : UInt32)
    (now : UInt64) : newEntry .entryTtl previous value ttl now = Entry.written now value ttl := by
  unfold newEntry
  split <;> rfl

variable {plan : CapacityPlan} {s : Store} {key : String} {e : Entry}

/-- An entry found after a call was written by it, or was there before. -/
theorem find?_perform (hv : s.Valid plan .entryTtl) {c : Call}
    (h : (s.perform c).2.find? key = some e) :
    (∃ value ttl, c.op = .set key value ttl ∧ e = Entry.written c.now value ttl) ∨
      (¬ c.op.Overwrites key ∧ s.find? key = some e) := by
  obtain ⟨-, hv', evicted, expired, hs⟩ := perform_spec hv c
  have hmem : (key, e) ∈ s.intended c :=
    hs.rows.mem_iff.mpr (List.mem_append_left _ (hv'.find?_eq_some.mp h))
  obtain ⟨now, op⟩ := c
  rw [hv.find?_eq_some]
  cases op with
  | set key' value ttl =>
      simp only [intended, hv.policy_eq, newEntry_entryTtl, List.mem_cons] at hmem
      rcases hmem with heq | hold
      · cases heq
        exact .inl ⟨value, ttl, rfl, rfl⟩
      · rw [mem_without] at hold
        exact .inr ⟨Ne.symm hold.2, hold.1⟩
  | get key' =>
      right
      refine ⟨id, ?_⟩
      simp only [intended, hv.policy_eq] at hmem
      cases hlive : s.live? now key' with
      | none => simpa [hlive] using hmem
      | some e' =>
          -- the policy leaves the entry that was read as it is
          have hfound : s.find? key' = some e' := (Option.filter_eq_some_iff.mp hlive).1
          rw [hlive, List.mem_cons, mem_without] at hmem
          rcases hmem with heq | hold
          · cases heq
            exact hv.find?_eq_some.mp hfound
          · exact hold.1
  | delete key' =>
      rw [intended, mem_without] at hmem
      exact .inr ⟨Ne.symm hmem.2, hmem.1⟩
  | clear => simp [intended] at hmem
  | cleanup => exact .inr ⟨id, hmem⟩

/-- Every entry found was written by the last call about its key (`LastWrote`). -/
theorem find?_after (plan : CapacityPlan) (past : List Call) {key : String} {e : Entry}
    (h : ((empty plan .entryTtl).after past).find? key = some e) :
    ∃ t₀ value ttl, LastWrote past key t₀ value ttl ∧ e = Entry.written t₀ value ttl := by
  have hinv := after_induction (P := fun past s => s.Valid plan .entryTtl ∧
    ∀ key e, s.find? key = some e →
      ∃ t₀ value ttl, LastWrote past key t₀ value ttl ∧ e = Entry.written t₀ value ttl)
    ?_ [] (s := empty plan .entryTtl) ⟨valid_empty plan .entryTtl, ?_⟩ past
  · exact hinv.2 key e h
  · rintro past s c ⟨hv, ih⟩
    refine ⟨(perform_spec hv c).2.1, ?_⟩
    intro key e he
    rcases find?_perform hv he with ⟨value, ttl, hop, heq⟩ | ⟨hop, hold⟩
    · refine ⟨c.now, value, ttl, ⟨past, [], ?_, by simp⟩, heq⟩
      rw [← hop]
    · obtain ⟨t₀, value, ttl, hlast, heq⟩ := ih key e hold
      exact ⟨t₀, value, ttl, hlast.snoc hop, heq⟩
  · intro key e he
    rw [(valid_empty plan .entryTtl).find?_eq_some, rows_empty] at he
    cases he

/-! ## Absent keys -/

/-- The call found `key` absent or removed it. -/
def Removes (s : Store) (c : Call) (key : String) : Prop :=
  (c.op = .get key ∧ (s.perform c).1 = .value none) ∨ c.op = .delete key ∨ c.op = .clear

/-- What a call `Removes` is not found. -/
theorem find?_of_removes (hv : s.Valid plan .entryTtl) {c : Call} (h : s.Removes c key) :
    (s.perform c).2.find? key = none := by
  have hv' := (perform_spec hv c).2.1
  obtain ⟨now, op⟩ := c
  rw [hv'.find?_eq_none]
  rcases h with ⟨rfl, hnone⟩ | rfl | rfl
  · obtain ⟨hanswer, -, hmissed, -⟩ := get_spec hv now key
    have hdead : s.live? now key = none := by
      rw [show (s.get now key).1 = none by simpa [perform] using hnone] at hanswer
      exact Option.map_eq_none_iff.mp hanswer.symm
    show key ∉ (s.get now key).2.rows.map (·.1)
    rw [hmissed hdead]
    exact not_mem_without key s.rows
  · show key ∉ (s.delete key).2.rows.map (·.1)
    rw [(delete_spec hv key).2.2]
    exact not_mem_without key s.rows
  · show key ∉ s.clear.rows.map (·.1)
    rw [(clear_spec hv).2]
    exact List.not_mem_nil

/-- A key that is absent stays absent until it is written. -/
theorem find?_perform_of_absent (hv : s.Valid plan .entryTtl) (hnone : s.find? key = none)
    {c : Call} (hc : ∀ value ttl, c.op ≠ .set key value ttl) :
    (s.perform c).2.find? key = none := by
  rw [Option.eq_none_iff_forall_ne_some]
  intro e he
  rcases find?_perform hv he with ⟨value, ttl, hop, -⟩ | ⟨-, hold⟩
  · exact hc value ttl hop
  · rw [hnone] at hold
    cases hold

/-- So it does in a run without writes of the key. -/
theorem find?_after_of_absent (hv : s.Valid plan .entryTtl) (hnone : s.find? key = none)
    {calls : List Call} (hc : ∀ c ∈ calls, ∀ value ttl, c.op ≠ .set key value ttl) :
    (s.after calls).find? key = none := by
  induction calls generalizing s with
  | nil => exact hnone
  | cons c calls ih =>
      have hstep := find?_perform_of_absent hv hnone (hc c List.mem_cons_self)
      exact ih (perform_spec hv c).2.1 hstep fun c' hc' => hc c' (List.mem_cons_of_mem _ hc')

/-- **No stale, foreign or resurrected read.** After any run of operations on an
empty store, with clocks that move as they like, a read that answers a value
answers that of the last call about its key, a write whose lifetime is not over;
and after a call that found the key absent or removed it, reads answer nothing
until the key is written again. -/
theorem read_of_last_write (plan : CapacityPlan) (past : List Call) (key : String) :
    (∀ now value, (((empty plan .entryTtl).after past).get now key).1 = some value →
      ∃ t₀ ttl, LastWrote past key t₀ value ttl ∧
        (ttl = 0 ∨ now.toNat < min (t₀.toNat + 1000 * ttl.toNat) (2 ^ 64 - 1))) ∧
    ∀ before c later, past = before ++ c :: later →
      ((empty plan .entryTtl).after before).Removes c key →
      (∀ c' ∈ later, ∀ value ttl, c'.op ≠ .set key value ttl) →
      ∀ now, (((empty plan .entryTtl).after past).get now key).1 = none := by
  have hv := valid_after (valid_empty plan .entryTtl)
  constructor
  · intro now value hread
    rw [(get_spec (hv past) now key).1, Option.map_eq_some_iff] at hread
    obtain ⟨e, hlive, rfl⟩ := hread
    obtain ⟨hfound, hlive⟩ := Option.filter_eq_some_iff.mp hlive
    obtain ⟨t₀, value, ttl, hlast, rfl⟩ := find?_after plan past hfound
    exact ⟨t₀, ttl, hlast, Entry.lt_of_live (by simpa using hlive)⟩
  · rintro before c later rfl hremoves hlater now
    have hgone := find?_of_removes (hv before) hremoves
    have hstill := find?_after_of_absent (perform_spec (hv before) c).2.1 hgone hlater
    rw [(get_spec (hv (before ++ c :: later)) now key).1, live?, after_append, after_cons, hstill]
    rfl

/-- A run in which the second write of a key is pushed out of the heap tier by
the write of another key. The read finds the second value in the off-heap tier
up to its deadline; a read at the deadline ends it, also for earlier clocks. -/
theorem read_of_last_write_demoted :
    let plan : CapacityPlan := ⟨some (.entries 1), some (.bytes 200)⟩
    let past : List Call := [⟨0, .set "a" ⟨#[1]⟩ 2⟩, ⟨5, .set "a" ⟨#[2]⟩ 2⟩, ⟨7, .set "b" ⟨#[3]⟩ 0⟩]
    (∃ t₀ ttl, LastWrote past "a" t₀ ⟨#[2]⟩ ttl ∧
      (ttl = 0 ∨ (2004 : UInt64).toNat < min (t₀.toNat + 1000 * ttl.toNat) (2 ^ 64 - 1))) ∧
    (((empty plan .entryTtl).after (past ++ [⟨2005, .get "a"⟩, ⟨6, .cleanup⟩])).get 6 "a").1 =
      none := by
  intro plan past
  constructor
  · exact (read_of_last_write plan past "a").1 2004 ⟨#[2]⟩ (by cbv)
  · refine (read_of_last_write plan _ "a").2 past ⟨2005, .get "a"⟩ [⟨6, .cleanup⟩] rfl ?_ ?_ 6
    · exact .inl ⟨rfl, by cbv⟩
    · simp

end Store

end CacheService
