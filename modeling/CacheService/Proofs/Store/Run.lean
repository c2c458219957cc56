import CacheService.Store

/-!
# CacheService.Proofs.Store.Run

Histories of a store. A `Call` is an operation with the clock it reads, and a run is a
list of calls; nothing relates the clocks of different calls.

* `Store.perform` — the answer of a call and the store after it; `Store.after` and
  `Store.answers` — the same for a run.
* `after_induction` — what every call preserves, of the store and the calls so far,
  holds after every run.
* `getMany_eq_after` — a read of several keys is a run of reads, so what holds of runs
  holds of it.
-/

namespace CacheService.Store

/-- An operation of a store. -/
inductive Op
  | set (key : String) (value : ByteArray) (ttl : UInt32)
  | get (key : String)
  | delete (key : String)
  | clear
  | cleanup
  deriving DecidableEq

/-- What an operation answers. -/
inductive Answer
  | done
  | value (found : Option ByteArray)
  | deleted (found : Bool)
  | removed (count : Nat)
  deriving DecidableEq

/-- An operation with the clock it reads. -/
structure Call where
  now : UInt64
  op : Op
  deriving DecidableEq

/-- The answer of a call and the store after it. -/
def perform (s : Store) (c : Call) : Answer × Store :=
  match c.op with
  | .set key value ttl => (.done, s.set c.now key value ttl)
  | .get key => (.value (s.get c.now key).1, (s.get c.now key).2)
  | .delete key => (.deleted (s.delete key).1, (s.delete key).2)
  | .clear => (.done, s.clear)
  | .cleanup => (.removed (s.cleanup c.now).1, (s.cleanup c.now).2)

/-- The store after a run, by `perform`. -/
def after (s : Store) (calls : List Call) : Store :=
  calls.foldl (fun s c => (s.perform c).2) s

/-- The answers of a run, call by call. -/
def answers : Store → List Call → List Answer
  | _, [] => []
  | s, c :: calls => (s.perform c).1 :: (s.perform c).2.answers calls

@[simp] theorem after_nil (s : Store) : s.after [] = s := rfl

@[simp] theorem after_cons (s : Store) (c : Call) (calls : List Call) :
    s.after (c :: calls) = (s.perform c).2.after calls := rfl

/-- A run is put together from two. -/
theorem after_append (s : Store) (calls calls' : List Call) :
    s.after (calls ++ calls') = (s.after calls).after calls' := List.foldl_append ..

/-- What every call preserves, of the store and the calls so far, holds after
every run. -/
theorem after_induction {P : List Call → Store → Prop}
    (hstep : ∀ past s c, P past s → P (past ++ [c]) (s.perform c).2) (past : List Call) {s : Store}
    (h : P past s) (calls : List Call) : P (past ++ calls) (s.after calls) := by
  induction calls generalizing past s with
  | nil => simpa using h
  | cons c calls ih => simpa using ih (past ++ [c]) (hstep past s c h)

/-! ## Reads of several keys -/

/-- `getMany` reads the first key and then the others. -/
theorem getMany_cons (s : Store) (now : UInt64) (key : String) (keys : List String) :
    s.getMany now (key :: keys) =
      (((s.get now key).1.toList.map (key, ·)) ++ ((s.get now key).2.getMany now keys).1,
        ((s.get now key).2.getMany now keys).2) := by
  obtain ⟨value, s', h⟩ : ∃ value s', s.get now key = (value, s') := ⟨_, _, rfl⟩
  simp only [getMany, h]
  cases value <;> rfl

/-- `getMany` is a run of reads. -/
theorem getMany_eq_after (s : Store) (now : UInt64) (keys : List String) :
    (s.getMany now keys).2 = s.after (keys.map fun key => ⟨now, .get key⟩) := by
  induction keys generalizing s with
  | nil => rfl
  | cons key keys ih => rw [getMany_cons, ih, List.map_cons, after_cons, perform]

/-- A read of several keys is put together from two. -/
theorem getMany_append (s : Store) (now : UInt64) (keys keys' : List String) :
    (s.getMany now (keys ++ keys')).2 = ((s.getMany now keys).2.getMany now keys').2 := by
  simp only [getMany_eq_after, List.map_append, after_append]

end CacheService.Store
