import CacheService.Stats
import CacheService.Proofs.Store.Reference

/-!
# CacheService.Proofs.Store.Accounting

The books of a store balance. Every entry that was ever written is still there, or has
been counted once as evicted or expired, or was replaced, deleted or cleared by a call
that says so. Placing an entry may bump counters several times for different entries;
the balance needs no case analysis of that, since `perform_spec` already says that a
call loses exactly the rows that it counts.

* `replaced` and `cleared` — what a call takes away without counting it, summed over a
  run by `total`.
* `balance_perform` and `balance_after` — one call, and a run.
-/

namespace CacheService.Store

/-! ## What calls add and take away -/

/-- Whether an operation is a write. -/
def Op.isSet : Op → Bool
  | .set .. => true
  | _ => false

/-- Whether an operation is a read. -/
def Op.isGet : Op → Bool
  | .get _ => true
  | _ => false

/-- The entries that a write finds under its key, live or expired: one or none. -/
def replaced (s : Store) (c : Call) : Nat :=
  match c.op with
  | .set key _ _ => (s.find? key).toList.length
  | _ => 0

/-- The entries there are just before a clear. -/
def cleared (s : Store) (c : Call) : Nat :=
  match c.op with
  | .clear => s.size
  | _ => 0

/-- The sum over a run of what `f` says of each call, in the store just before it. -/
def total (f : Store → Call → Nat) : Store → List Call → Nat
  | _, [] => 0
  | s, c :: calls => f s c + total f (s.perform c).2 calls

variable {plan : CapacityPlan} {policy : ExpiryPolicy} {s : Store}

/-! ## One call -/

/-- Taking a key out takes as many rows as are found under it. -/
theorem length_without (hv : s.Valid plan policy) (key : String) :
    (without key s.rows).length + (s.find? key).toList.length = s.rows.length := by
  cases he : s.find? key with
  | some e =>
      have hperm := perm_cons_without hv.nodup (hv.find?_eq_some.mp he)
      exact hperm.length_eq.symm
  | none =>
      rw [without_eq_self (hv.find?_eq_none.mp he)]
      rfl

/-- Without bounds, a call leaves the entries there were and the one it wrote, less
those that it says it took away. -/
theorem length_intended (hv : s.Valid plan policy) (c : Call) :
    (s.intended c).length + s.replaced c + [s.answered c].count (.deleted true) + s.cleared c =
      s.rows.length + [c].countP (·.op.isSet) := by
  obtain ⟨now, op⟩ := c
  cases op with
  | set key value ttl =>
      have hlen := length_without hv key
      simp [intended, replaced, answered, cleared, Op.isSet]
      omega
  | get key =>
      have hlen := length_without hv key
      cases hlive : s.live? now key with
      | none => simp [intended, hlive, replaced, answered, cleared, Op.isSet]
      | some e =>
          have hfound : s.find? key = some e := (Option.filter_eq_some_iff.mp hlive).1
          rw [hfound] at hlen
          simpa [intended, hlive, replaced, answered, cleared, Op.isSet] using hlen
  | delete key =>
      have hlen := length_without hv key
      cases hfound : s.find? key <;>
        simpa [intended, hfound, replaced, answered, cleared, Op.isSet] using hlen
  | clear => simp [intended, replaced, answered, cleared, Op.isSet, hv.size_eq]
  | cleanup => simp [intended, replaced, answered, cleared, Op.isSet]

/-- **One call** keeps the balance: what it adds to the entries and the losses
counted is what it wrote, less what it replaced, deleted or cleared. -/
theorem balance_perform (hv : s.Valid plan policy) (c : Call) :
    (s.perform c).2.size + (s.perform c).2.tally.evictions + (s.perform c).2.tally.expirations
        + s.replaced c + [(s.perform c).1].count (.deleted true) + s.cleared c =
      s.size + s.tally.evictions + s.tally.expirations + [c].countP (·.op.isSet) := by
  obtain ⟨hanswer, hvalid, evicted, expired, hs⟩ := perform_spec hv c
  have hlen := hs.rows.length_eq
  rw [List.length_append, List.length_append] at hlen
  have hintended := length_intended hv c
  obtain ⟨hevictions, hexpirations⟩ := losses_counted s c
  rw [hanswer, hvalid.size_eq, hv.size_eq, hs.tally]
  simp only [Tally.evict, Tally.expire]
  omega

/-! ## Runs -/

/-- **A run** keeps the balance. -/
theorem balance_after (hv : s.Valid plan policy) (calls : List Call) :
    (s.after calls).size + (s.after calls).tally.evictions + (s.after calls).tally.expirations
        + s.total replaced calls + (s.answers calls).count (.deleted true)
        + s.total cleared calls =
      s.size + s.tally.evictions + s.tally.expirations + calls.countP (·.op.isSet) := by
  induction calls generalizing s with
  | nil => rfl
  | cons c calls ih =>
      have hcall := balance_perform hv c
      have hrun := ih (perform_spec hv c).2.1
      rw [after_cons, total, total, answers,
        ← List.singleton_append (l := (s.perform c).2.answers calls),
        List.count_append, ← List.singleton_append (l := calls), List.countP_append]
      omega

/-- A read finds a value or does not. -/
theorem countP_reads (s : Store) (calls : List Call) :
    (s.reads calls).countP (·.isSome) + (s.reads calls).countP (·.isNone) =
      calls.countP (·.op.isGet) := by
  induction calls generalizing s with
  | nil => rfl
  | cons c calls ih =>
      have hrest := ih (s.perform c).2
      have hcall : (s.perform c).1.read?.toList.countP (·.isSome)
          + (s.perform c).1.read?.toList.countP (·.isNone) = [c].countP (·.op.isGet) := by
        obtain ⟨now, op⟩ := c
        cases op with
        | get key =>
            show [(s.get now key).1].countP (·.isSome) + [(s.get now key).1].countP (·.isNone) = 1
            cases (s.get now key).1 <;> rfl
        | _ => rfl
      rw [reads_cons, List.countP_append, List.countP_append, ← List.singleton_append (l := calls),
        List.countP_append]
      omega

/-- **The books balance.** After every run of operations on an empty store, on
any clocks and under any policy, as many entries have been written as are there
or were evicted, expired, replaced by a write, deleted or cleared; and hits and
misses are the reads that found a value and those that did not. -/
theorem accounting_of_run (plan : CapacityPlan) (policy : ExpiryPolicy) (calls : List Call) :
    let start := empty plan policy
    let stats := (start.after calls).stats
    calls.countP (·.op.isSet) =
        stats.totalEntries + stats.evictions + stats.expirations + start.total replaced calls
          + (start.answers calls).count (.deleted true) + start.total cleared calls ∧
      stats.hits + stats.misses = calls.countP (·.op.isGet) ∧
      stats.hits = (start.reads calls).countP (·.isSome) := by
  intro start stats
  have hv : start.Valid plan policy := valid_empty plan policy
  have hnothing : start.size + start.tally.evictions + start.tally.expirations = 0 := by
    rw [hv.size_eq, rows_empty]
    rfl
  have hbalance := balance_after hv calls
  rw [hnothing, Nat.zero_add] at hbalance
  obtain ⟨hhits, hmisses⟩ := tally_reads hv calls
  have hhits : stats.hits = (start.reads calls).countP (·.isSome) :=
    hhits.trans (Nat.zero_add _)
  have hmisses : stats.misses = (start.reads calls).countP (·.isNone) :=
    hmisses.trans (Nat.zero_add _)
  refine ⟨hbalance.symm, ?_, hhits⟩
  rw [hhits, hmisses, countP_reads]

end CacheService.Store
