import CacheService.Proofs.Store.RecencyList

/-!
# CacheService.Proofs.Store.Inclusion

More capacity never loses a hit. Two stores bounded in entries run the same
calls, one with fewer places than the other; what the smaller one holds the
larger one holds.

A read may hit in the larger store only and reorder that alone, so the smaller
list is no prefix of the larger one. It is part of it in the same order, and the
larger list holds no more besides than it has places more (`RecencyList.Within`):
it drops an entry only when the smaller list drops one as well.

* `Within.perform` and `Within.after` — one operation, then a run, on two lists
  of which one is `Within` the other;
* `hits_of_more_capacity` — two stores of which each is its list, by
  `run_recencyList`;
* `hit_lost_at_once` — a store without places in its heap tier drops an entry
  whose lifetime is over at once, and a smaller one with such a place keeps it.
-/

namespace CacheService

namespace RecencyList

open Store (Op Answer)

/-- What a list on `capacity` places holds, another on `capacity'` places holds
in the same order, and no more besides than it has places more. -/
structure Within (capacity capacity' : Nat) (l l' : RecencyList) : Prop where
  sublist : l.entries.Sublist l'.entries
  nodup : (l'.entries.map (·.1)).Nodup
  fits : l.entries.length ≤ capacity
  excess : l'.entries.length + capacity ≤ l.entries.length + capacity'

variable {capacity capacity' : Nat} {l l' : RecencyList} {key : String} {value : ByteArray}

/-- Empty lists are one `Within` the other. -/
theorem within_empty (h : capacity ≤ capacity') : Within capacity capacity' {} {} :=
  ⟨List.Sublist.slnil, List.nodup_nil, Nat.zero_le _, by simpa using h⟩

/-! ## Parts of operations -/

/-- `remove` leaves no entry of the key. -/
theorem not_mem_remove (l : RecencyList) (key : String) :
    key ∉ (l.remove key).entries.map (·.1) := by
  simp [remove]

/-- `remove` leaves a list that does not have the key. -/
theorem remove_of_not_mem (h : key ∉ l.entries.map (·.1)) : l.remove key = l := by
  have hall : l.entries.filter (·.1 ≠ key) = l.entries := by
    rw [List.filter_eq_self]
    intro entry hentry
    have hne : entry.1 ≠ key := fun heq => h (heq ▸ List.mem_map_of_mem hentry)
    simpa using hne
  simp only [remove, hall]

/-- A list that holds a key gets shorter without it. -/
theorem length_remove_lt (h : key ∈ l.entries.map (·.1)) :
    (l.remove key).entries.length < l.entries.length := by
  obtain ⟨entry, hentry, rfl⟩ := List.mem_map.mp h
  exact List.length_filter_lt_length_iff_exists.mpr ⟨entry, hentry, by simp⟩

/-- `Within` when a key is removed from both lists; the larger one loses no less than
the smaller. -/
theorem Within.remove (h : Within capacity capacity' l l') (key : String) :
    Within capacity capacity' (l.remove key) (l'.remove key) := by
  have hkept := h.sublist.filter fun entry => entry.1 ≠ key
  have hlost := (h.sublist.filter fun entry => !decide (entry.1 ≠ key)).length_le
  have hsmall := l.entries.length_eq_length_filter_add fun entry => entry.1 ≠ key
  have hlarge := l'.entries.length_eq_length_filter_add fun entry => entry.1 ≠ key
  have hfits := h.fits
  have hexcess := h.excess
  refine ⟨hkept, h.nodup.sublist (List.filter_sublist.map _), ?_, ?_⟩
  · simp only [RecencyList.remove]
    omega
  · simp only [RecencyList.remove]
    omega

/-- `Within` when a key that neither list holds comes to the front of both; each drops
its last element if it is too long then. -/
theorem Within.push_trim (h : Within capacity capacity' l l') (value : ByteArray)
    (hnew : key ∉ l'.entries.map (·.1)) :
    Within capacity capacity' ((l.push key value).trim capacity)
      ((l'.push key value).trim capacity') := by
  have hfits := h.fits
  have hexcess := h.excess
  have hlength (l : RecencyList) : (l.push key value).entries.length = l.entries.length + 1 := rfl
  have hpushed : (l.push key value).entries.Sublist (l'.push key value).entries :=
    h.sublist.cons_cons _
  have hnodup : ((l'.push key value).entries.map (·.1)).Nodup := List.nodup_cons.mpr ⟨hnew, h.nodup⟩
  have hlarge := hnodup.sublist ((List.dropLast_sublist _).map Prod.fst)
  unfold trim
  rw [hlength, hlength]
  by_cases hroom : l.entries.length + 1 ≤ capacity
  · -- With room in the smaller list there is room in the larger one.
    rw [if_pos hroom, if_pos (by omega)]
    exact ⟨hpushed, hnodup, hroom, by rw [hlength, hlength]; omega⟩
  · rw [if_neg hroom]
    have hdropped : (l.push key value).entries.dropLast.length = l.entries.length := by
      rw [List.length_dropLast, hlength, Nat.add_sub_cancel]
    by_cases hroom' : l'.entries.length + 1 ≤ capacity'
    · rw [if_pos hroom']
      refine ⟨(List.dropLast_sublist _).trans hpushed, hnodup, ?_, ?_⟩
      · exact hdropped.trans_le hfits
      · dsimp only
        rw [hdropped, hlength]
        omega
    · rw [if_neg hroom']
      have hboth :
          (l.push key value).entries.dropLast.Sublist (l'.push key value).entries.dropLast := by
        have htails := hpushed.reverse.tail
        rwa [List.tail_reverse, List.tail_reverse, List.reverse_sublist] at htails
      refine ⟨hboth, hlarge, hdropped.trans_le hfits, ?_⟩
      dsimp only
      rw [List.length_dropLast, hlength, hdropped]
      omega

/-- `Within` for a hit in the larger list only, which moves a key to its front. -/
theorem Within.push_right (h : Within capacity capacity' l l') (value : ByteArray)
    (hmiss : key ∉ l.entries.map (·.1)) (hhit : key ∈ l'.entries.map (·.1)) :
    Within capacity capacity' l ((l'.remove key).push key value) := by
  have hexcess := h.excess
  have hshorter := length_remove_lt hhit
  have hsublist : l.entries.Sublist (l'.remove key).entries := by
    have hkept := (h.remove key).sublist
    rwa [remove_of_not_mem hmiss] at hkept
  refine ⟨hsublist.cons _, ?_, h.fits, ?_⟩
  · exact List.nodup_cons.mpr ⟨not_mem_remove l' key, (h.remove key).nodup⟩
  · simp only [push, List.length_cons]
    omega

/-- `Within` for a hit in both lists, which moves a key to their fronts. -/
theorem Within.push_both (h : Within capacity capacity' l l') (value : ByteArray)
    (hhit : key ∈ l.entries.map (·.1)) :
    Within capacity capacity' ((l.remove key).push key value) ((l'.remove key).push key value) := by
  have hfits := h.fits
  have hshorter := length_remove_lt hhit
  have hremoved := h.remove key
  have hexcess := hremoved.excess
  refine ⟨hremoved.sublist.cons_cons _, ?_, ?_, ?_⟩
  · exact List.nodup_cons.mpr ⟨not_mem_remove l' key, hremoved.nodup⟩
  · simp only [push, List.length_cons]
    omega
  · simp only [push, List.length_cons]
    omega

/-! ## Operations -/

/-- What is found is an entry. -/
theorem mem_of_lookup (h : l.entries.lookup key = some value) : (key, value) ∈ l.entries := by
  obtain ⟨before, later, hsplit, -⟩ := List.lookup_eq_some_iff.mp h
  simp [hsplit]

/-- In a list of distinct keys an entry is found. -/
theorem lookup_of_mem (hnodup : (l.entries.map (·.1)).Nodup) (hmem : (key, value) ∈ l.entries) :
    l.entries.lookup key = some value := by
  obtain ⟨before, later, hsplit⟩ := List.append_of_mem hmem
  refine List.lookup_eq_some_iff.mpr ⟨before, later, hsplit, fun entry hentry => ?_⟩
  rw [hsplit, List.map_append, List.nodup_append] at hnodup
  have hne : entry.1 ≠ key :=
    hnodup.2.2 entry.1 (List.mem_map_of_mem hentry) key (by simp)
  simpa using hne.symm

/-- What is found in the smaller list is found in the larger one. -/
theorem Within.lookup (h : Within capacity capacity' l l')
    (hfound : l.entries.lookup key = some value) : l'.entries.lookup key = some value :=
  lookup_of_mem h.nodup (h.sublist.mem (mem_of_lookup hfound))

/-- **One operation** on both lists keeps one within the other. -/
theorem Within.perform (h : Within capacity capacity' l l') (op : Op) :
    Within capacity capacity' (l.perform capacity op).2 (l'.perform capacity' op).2 := by
  cases op with
  | set key value ttl => exact (h.remove key).push_trim value (not_mem_remove l' key)
  | delete key => exact h.remove key
  | clear =>
      have hplaces : 0 + capacity ≤ 0 + capacity' := by
        have hexcess := h.excess
        have hlength := h.sublist.length_le
        omega
      exact ⟨List.Sublist.slnil, List.nodup_nil, Nat.zero_le _, hplaces⟩
  | cleanup => exact h
  | get key =>
      cases hfound' : l'.entries.lookup key with
      | none =>
          have hfound : l.entries.lookup key = none := by
            cases hfound : l.entries.lookup key with
            | none => rfl
            | some value => rw [h.lookup hfound] at hfound'; contradiction
          simp only [RecencyList.perform, hfound, hfound']
          exact ⟨h.sublist, h.nodup, h.fits, h.excess⟩
      | some value =>
          have hhit' : key ∈ l'.entries.map (·.1) := List.mem_map_of_mem (mem_of_lookup hfound')
          cases hfound : l.entries.lookup key with
          | none =>
              have hmiss : key ∉ l.entries.map (·.1) := by
                intro hmem
                obtain ⟨entry, hentry, rfl⟩ := List.mem_map.mp hmem
                simpa using List.lookup_eq_none_iff.mp hfound entry hentry
              have hright := h.push_right value hmiss hhit'
              simp only [RecencyList.perform, hfound, hfound']
              exact ⟨hright.sublist, hright.nodup, hright.fits, hright.excess⟩
          | some value' =>
              obtain rfl : value = value' := by
                rw [h.lookup hfound] at hfound'
                exact (Option.some.inj hfound').symm
              have hboth := h.push_both value (List.mem_map_of_mem (mem_of_lookup hfound))
              simp only [RecencyList.perform, hfound, hfound']
              exact ⟨hboth.sublist, hboth.nodup, hboth.fits, hboth.excess⟩

/-- **A run** on both lists keeps one `Within` the other. -/
theorem Within.after (h : Within capacity capacity' l l') (ops : List Op) :
    Within capacity capacity' (l.after capacity ops) (l'.after capacity' ops) := by
  induction ops generalizing l l' with
  | nil => exact h
  | cons op ops ih => exact ih (h.perform op)

end RecencyList

/-! ## Stores -/

namespace Store

variable {heap offHeap : Option UInt64} {policy : ExpiryPolicy} {calls before later : List Call}

/-- A read finds what is listed in the `recencyList`. -/
theorem get_eq_lookup {s : Store} {now : UInt64} {key : String}
    (hv : s.Valid (entryPlan heap offHeap) policy) (h : s.Lasts heap ⟨now, .get key⟩) :
    (s.get now key).1 = s.recencyList.entries.lookup key := by
  have hread := congrArg Prod.fst (perform_get hv h)
  rw [RecencyList.perform] at hread
  cases hlisted : s.recencyList.entries.lookup key with
  | none =>
      rw [hlisted] at hread
      exact (Answer.value.inj hread).symm
  | some value =>
      rw [hlisted] at hread
      exact (Answer.value.inj hread).symm

/-- The `recencyList` at some point of a run in which no entry expires. -/
theorem recencyList_at (h : (empty (entryPlan heap offHeap) policy).Throughout (Lasts heap) calls)
    (hsplit : calls = before ++ later) :
    ((empty (entryPlan heap offHeap) policy).after before).recencyList =
      RecencyList.after (slots heap + slots offHeap) {} (before.map (·.op)) := by
  have hempty : (empty (entryPlan heap offHeap) policy).recencyList = {} := by
    rw [recencyList, rows_empty]
    rfl
  rw [← hempty]
  exact (run_recencyList (valid_empty _ _) calls h).2 before later hsplit

/-- **More capacity never loses a hit.** Two stores bounded in entries run the
same calls from the start, and no entry expires in either (`Lasts`). If the tiers
of the second together have no fewer places (`slots`) than those of the first,
however the places are divided among the tiers, then at every point of the run it
holds every key of the first with the same value, and every read that finds a
value in the first finds it in the second. -/
theorem hits_of_more_capacity (heap offHeap heap' offHeap' : Option UInt64)
    (hplaces : slots heap + slots offHeap ≤ slots heap' + slots offHeap') (policy : ExpiryPolicy)
    (calls : List Call)
    (h : (empty (entryPlan heap offHeap) policy).Throughout (Lasts heap) calls)
    (h' : (empty (entryPlan heap' offHeap') policy).Throughout (Lasts heap') calls) :
    ∀ before later, calls = before ++ later →
      let s := (empty (entryPlan heap offHeap) policy).after before
      let s' := (empty (entryPlan heap' offHeap') policy).after before
      (∀ key e, s.find? key = some e → ∃ e', s'.find? key = some e' ∧ e'.value = e.value) ∧
        ∀ now key value, later.head? = some ⟨now, .get key⟩ → (s.get now key).1 = some value →
          (s'.get now key).1 = some value := by
  intro before later hsplit s s'
  have hv : s.Valid (entryPlan heap offHeap) policy := valid_after (valid_empty _ _) before
  have hv' : s'.Valid (entryPlan heap' offHeap') policy := valid_after (valid_empty _ _) before
  have hwithin := (RecencyList.within_empty hplaces).after (before.map (·.op))
  rw [← recencyList_at h hsplit, ← recencyList_at h' hsplit] at hwithin
  have hheld (key : String) (e : Entry) (he : s.find? key = some e) :
      ∃ e', s'.find? key = some e' ∧ e'.value = e.value := by
    have hlisted : s.recencyList.entries.lookup key = some e.value := by
      rw [hv.lookup_eq, he, Option.map_some]
    have hlisted' := hwithin.lookup hlisted
    rw [hv'.lookup_eq] at hlisted'
    exact Option.map_eq_some_iff.mp hlisted'
  refine ⟨hheld, fun now key value hnext hhit => ?_⟩
  obtain ⟨later, rfl⟩ : ∃ rest, later = ⟨now, .get key⟩ :: rest := by
    cases later with
    | nil => contradiction
    | cons c rest => exact ⟨rest, by rw [Option.some.inj hnext]⟩
  subst hsplit
  rw [get_eq_lookup hv h.holds_at] at hhit
  rw [get_eq_lookup hv' h'.holds_at]
  exact hwithin.lookup hhit

/-- Three places beside two. The read of the oldest key hits in the larger store
only and makes it the newest there; the delete leaves a place free in either. The
key that both hold is found in both. -/
theorem hits_of_more_capacity_reordered :
    let small := empty (entryPlan (some 1) (some 1)) .entryTtl
    let large := empty (entryPlan none (some 3)) .entryTtl
    let before : List Call :=
      [⟨0, .set "a" ⟨#[1]⟩ 0⟩, ⟨1, .set "b" ⟨#[2]⟩ 9⟩, ⟨2, .set "c" ⟨#[3]⟩ 0⟩,
      ⟨3, .get "a"⟩, ⟨4, .delete "c"⟩, ⟨5, .set "d" ⟨#[4]⟩ 0⟩]
    ((small.after before).get 6 "a").1 = none ∧ ((large.after before).get 6 "a").1 = some ⟨#[1]⟩ ∧
      ((small.after before).get 6 "b").1 = some ⟨#[2]⟩ ∧
      ((large.after before).get 6 "b").1 = some ⟨#[2]⟩ := by
  intro small large before
  have h : small.Throughout (Lasts (some 1)) (before ++ [⟨6, .get "b"⟩]) :=
    of_decide_eq_true (by cbv)
  have h' : large.Throughout (Lasts none) (before ++ [⟨6, .get "b"⟩]) := of_decide_eq_true (by cbv)
  have hsmall : ((small.after before).get 6 "b").1 = some ⟨#[2]⟩ := by cbv
  have hlarge := (hits_of_more_capacity (some 1) (some 1) none (some 3) (by decide) .entryTtl _ h h'
    before _ rfl).2 6 "b" ⟨#[2]⟩ rfl hsmall
  exact ⟨by cbv, by cbv, hsmall, hlarge⟩

/-- One place in the heap tier beside one place in the off-heap tier. At the largest
clock every deadline has come when it is set, as `saturatingAdd` leaves no later
one: the heap tier takes the entry in all the same, while `demote` drops it. No call
has found an expired entry in either store. -/
theorem hit_lost_at_once :
    let small := empty (entryPlan (some 1) none) .entryTtl
    let large := empty (entryPlan none (some 1)) .entryTtl
    let calls : List Call := [⟨18446744073709551615, .set "a" ⟨#[1]⟩ 1⟩]
    slots (some 1) + slots none = slots none + slots (some 1) ∧
      small.Throughout Unexpired calls ∧ large.Throughout Unexpired calls ∧
      ((small.after calls).find? "a").isSome = true ∧ (large.after calls).find? "a" = none := by
  refine ⟨rfl, of_decide_eq_true (by cbv), of_decide_eq_true (by cbv), by decide, by decide⟩

end Store

end CacheService
