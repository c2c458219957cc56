import Mathlib.Logic.Basic
import CacheService.Proofs.Recency

/-!
# CacheService.Proofs.Recency.History

Histories of the order of use on its own. A `Recency` with any history behind it
answers as a list of distinct keys does, the least recently used key first:

* `consistent_perform` — an operation keeps the two tables inverse to each other;
* `lists_perform` — an operation answers as its list operation, and the order after
  it is the list after that;
* `run_eq_list` — so does a run, in which each use takes one tick.
-/

namespace CacheService

open Std

namespace Recency

/-! ## Operations -/

/-- An operation of the tracker. -/
inductive Op
  | touch (key : String)
  | erase (key : String)
  | evictOldest
  | contains (key : String)
  | oldest
  | size
  | isEmpty
  | clear

/-- What an operation returns. -/
inductive Answer
  | done
  | oldest (key : Option String)
  | flag (b : Bool)
  | count (n : Nat)
  deriving DecidableEq

/-- Whether an operation takes a tick. -/
def Op.isTouch : Op → Bool
  | .touch _ => true
  | _ => false

/-- The answer of an operation and the order after it. -/
def perform (r : Recency) : Op → Answer × Recency
  | .touch key => (.done, r.touch key)
  | .erase key => (.done, r.erase key)
  | .evictOldest =>
    match r.evictOldest with
    | none => (.oldest none, r)
    | some (key, r) => (.oldest (some key), r)
  | .contains key => (.flag (r.contains key), r)
  | .oldest => (.oldest r.oldest?, r)
  | .size => (.count r.size, r)
  | .isEmpty => (.flag r.isEmpty, r)
  | .clear => (.done, r.clear)

/-- The same operations on a list of keys, the least recently used first. -/
def performList (keys : List String) : Op → Answer × List String
  | .touch key => (.done, keys.erase key ++ [key])
  | .erase key => (.done, keys.erase key)
  | .evictOldest => (.oldest keys.head?, keys.tail)
  | .contains key => (.flag (decide (key ∈ keys)), keys)
  | .oldest => (.oldest keys.head?, keys)
  | .size => (.count keys.length, keys)
  | .isEmpty => (.flag keys.isEmpty, keys)
  | .clear => (.done, [])

/-- The answers of several operations, one by one, and the state after them. -/
def run {σ : Type} (step : σ → Op → Answer × σ) (s : σ) : List Op → List Answer × σ
  | [] => ([], s)
  | op :: ops =>
    let (answer, s) := step s op
    let (answers, s) := run step s ops
    (answer :: answers, s)

/-! ## One operation -/

variable {r : Recency} {keys : List String}

/-- **One operation** keeps a `Recency` consistent: the tables inverse to each other and
the ticks below the next one. -/
theorem consistent_perform (h : r.Consistent) (op : Op) : (r.perform op).2.Consistent := by
  cases op with
  | touch key => exact consistent_touch h key
  | erase key => exact consistent_erase h key
  | evictOldest =>
      rw [perform, evictOldest_eq h]
      cases r.toList.head? with
      | none => exact h
      | some key => exact consistent_erase h key
  | clear => exact consistent_clear r
  | contains | oldest | size | isEmpty => exact h

/-- Only a use takes a tick. -/
theorem nextTick_perform (h : r.Consistent) (op : Op) :
    (r.perform op).2.nextTick = r.nextTick + if op.isTouch then 1 else 0 := by
  cases op with
  | touch key => rw [perform, touch_eq, Op.isTouch, if_pos rfl]
  | erase key => exact nextTick_erase r key
  | evictOldest =>
      rw [perform, evictOldest_eq h]
      cases r.toList.head? with
      | none => rfl
      | some key => exact nextTick_erase r key
  | contains | oldest | size | isEmpty | clear => rfl

/-- The ticks in the table of keys lie below the next one as well. -/
theorem tick_lt (h : r.Consistent) {key : String} {tick : Nat}
    (ht : r.tickOf[key]? = some tick) : tick < r.nextTick := by
  apply h.below
  rw [TreeMap.mem_iff_isSome_getElem?, (h.inverse key tick).mp ht, Option.isSome_some]

/-- `isEmpty` says whether the list is. -/
theorem isEmpty_eq (h : r.Consistent) : r.isEmpty = r.toList.isEmpty := by
  rw [isEmpty, TreeMap.isEmpty_eq_size_eq_zero, Bool.eq_iff_iff, beq_iff_eq, List.isEmpty_iff,
    ← List.length_eq_zero_iff, ← size_eq_length h, size]

/-- The order of use of `r` is this list. -/
structure Lists (r : Recency) (keys : List String) : Prop where
  consistent : r.Consistent
  toList : r.toList = keys

/-- A key stands in the list once. -/
theorem Lists.nodup (h : r.Lists keys) : keys.Nodup := h.toList ▸ nodup_toList h.consistent

/-- Taking a key out of the tables takes it out of the list, where it stands once. -/
theorem Lists.toList_erase (h : r.Lists keys) (key : String) :
    (r.erase key).toList = keys.erase key := by
  rw [Recency.toList_erase h.consistent, h.nodup.erase_eq_filter, h.toList]
  exact List.filter_congr fun _ _ => decide_not

/-- **One operation** answers as `performList` does, and leaves the list that it leaves. -/
theorem lists_perform (h : r.Lists keys) (op : Op) :
    (r.perform op).1 = (performList keys op).1 ∧
      (r.perform op).2.Lists (performList keys op).2 := by
  suffices hop : (r.perform op).1 = (performList keys op).1 ∧
      (r.perform op).2.toList = (performList keys op).2 from
    ⟨hop.1, consistent_perform h.consistent op, hop.2⟩
  cases op with
  | touch key =>
      refine ⟨rfl, ?_⟩
      rw [perform, toList_touch h.consistent, ← Recency.toList_erase h.consistent,
        h.toList_erase, performList]
  | erase key => exact ⟨rfl, h.toList_erase key⟩
  | evictOldest =>
      rw [perform, evictOldest_eq h.consistent, h.toList]
      cases keys with
      | nil => exact ⟨rfl, h.toList⟩
      | cons key keys => exact ⟨rfl, (h.toList_erase key).trans (List.erase_cons_head ..)⟩
  | contains key => exact ⟨by rw [perform, contains_eq h.consistent, h.toList]; rfl, h.toList⟩
  | oldest => exact ⟨by rw [perform, oldest?_eq, h.toList]; rfl, h.toList⟩
  | size => exact ⟨by rw [perform, size_eq_length h.consistent, h.toList]; rfl, h.toList⟩
  | isEmpty => exact ⟨by rw [perform, isEmpty_eq h.consistent, h.toList]; rfl, h.toList⟩
  | clear => exact ⟨rfl, toList_clear r⟩

/-! ## Runs -/

/-- **A run** answers as it does on the list, and each use in it takes one tick. -/
theorem lists_run (h : r.Lists keys) (ops : List Op) :
    (run perform r ops).1 = (run performList keys ops).1 ∧
      (run perform r ops).2.Lists (run performList keys ops).2 ∧
      (run perform r ops).2.nextTick = r.nextTick + ops.countP Op.isTouch := by
  induction ops generalizing r keys with
  | nil => exact ⟨rfl, h, rfl⟩
  | cons op ops ih =>
      obtain ⟨hanswer, hlists⟩ := lists_perform h op
      obtain ⟨hanswers, hafter, htick⟩ := ih hlists
      refine ⟨congrArg₂ List.cons hanswer hanswers, hafter, htick.trans ?_⟩
      rw [nextTick_perform h.consistent, List.countP_cons]
      omega

/-- **A duplicate-free recency list.** Every run from an order without keys answers as the
same run on the empty list: a used key goes to the end, once, whether it was there or not;
an erased key is taken out; an eviction returns and takes out the first key. The order
after the run is the list after it, which has no key twice. Each use takes one tick, so a
counter of 64 bits suffices for fewer than `2 ^ 64` uses. What carries this is kept by
every operation in every consistent state: the two tables are inverse to each other, and
the ticks in both of them lie below the next one. -/
theorem run_eq_list :
    (∀ ops : List Op,
      let r := (run perform empty ops).2
      let keys := (run performList [] ops).2
      (run perform empty ops).1 = (run performList [] ops).1 ∧
      r.toList = keys ∧ keys.Nodup ∧ r.nextTick = ops.countP Op.isTouch ∧
      r.Consistent ∧ ∀ (key : String) (tick : Nat), r.tickOf[key]? = some tick →
        tick < r.nextTick) ∧
    ∀ (r : Recency) (op : Op), r.Consistent → (r.perform op).2.Consistent := by
  refine ⟨fun ops => ?_, fun r op h => consistent_perform h op⟩
  have hempty : empty.Lists [] := ⟨consistent_empty, toList_clear empty⟩
  obtain ⟨hanswers, hlists, htick⟩ := lists_run hempty ops
  exact ⟨hanswers, hlists.toList, hlists.nodup, htick.trans (Nat.zero_add _), hlists.consistent,
    fun _ _ => tick_lt hlists.consistent⟩

/-- A key used again leaves no second place behind: it is evicted once, after the others. -/
theorem run_eq_list_used_again :
    (run perform empty
        [.touch "a", .touch "b", .touch "a", .evictOldest, .evictOldest, .evictOldest]).1 =
      [.done, .done, .done, .oldest (some "b"), .oldest (some "a"), .oldest none] ∧
    ((empty.touch "a").perform (.touch "a")).2.Consistent :=
  ⟨(run_eq_list.1 _).1.trans (by decide),
    run_eq_list.2 _ _ (consistent_touch consistent_empty "a")⟩

end Recency

end CacheService
