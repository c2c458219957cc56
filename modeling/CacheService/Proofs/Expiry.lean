import CacheService.Entry
import Mathlib.Algebra.Group.Nat.Defs

/-!
# CacheService.Proofs.Expiry

How long an entry lives under an expiry. The clock has 64 bits, and a deadline meets that bound
twice: of the milliseconds of a span, whole multiples of 2^64 are lost, and the sum of what
remains and the present stops at the largest time. The sum keeps the order of lifetimes, the
loss does not:

* `Entry.expiresAt_after` — the deadline of a span, as a number;
* `after_outlasts_after` — spans outlast each other by what the clock counts of them;
* `longer_outlasts` — hence a longer span outlasts a shorter one, if the clock counts all of it.

Lifetimes in seconds are short enough for that (`ofTtl_outlasts_ofTtl`).
-/

namespace CacheService

/-! ## Spans on the clock -/

namespace Span

variable {d d₁ d₂ : Span}

/-- What the clock counts of a span: its `millis`, less whole multiples of 2^64. -/
def onClock (d : Span) : Nat := d.millis % 2 ^ 64

/-- What the clock counts fits the clock. -/
theorem onClock_lt (d : Span) : d.onClock < 2 ^ 64 := Nat.mod_lt _ (by decide)

/-- The clock counts all of a span that fits it. -/
theorem onClock_eq_millis (h : d.millis < 2 ^ 64) : d.onClock = d.millis := Nat.mod_eq_of_lt h

/-- A second has a thousand milliseconds. -/
theorem millis_ofSeconds (n : UInt64) : (ofSeconds n).millis = 1000 * n.toNat := by
  simp [ofSeconds, millis, Nat.mul_comm]

/-- Longer spans have no fewer milliseconds. -/
theorem millis_le_millis (h : d₁.toNanos ≤ d₂.toNanos) : d₁.millis ≤ d₂.millis := by
  rw [millis_eq, millis_eq]
  exact Nat.div_le_div_right h

/-- Spans keep their order on the clock if it counts all of the longer one. -/
theorem onClock_le_onClock (hle : d₁.toNanos ≤ d₂.toNanos) (hfits : d₂.millis < 2 ^ 64) :
    d₁.onClock ≤ d₂.onClock := by
  have hmillis := millis_le_millis hle
  rwa [onClock_eq_millis (Nat.lt_of_le_of_lt hmillis hfits), onClock_eq_millis hfits]

/-- The clock counts all of a lifetime in seconds. -/
theorem onClock_ofTtl (ttl : UInt32) :
    (ofSeconds ttl.toUInt64).onClock = 1000 * ttl.toNat := by
  have hmillis := millis_ofSeconds ttl.toUInt64
  rw [UInt32.toNat_toUInt64] at hmillis
  have hbound := ttl.toNat_lt
  rw [onClock_eq_millis (by omega), hmillis]

end Span

/-! ## Deadlines -/

namespace Entry

variable {e : Entry} {now t : UInt64} {d : Span} {ttl : UInt32}

/-- An entry `isExpiredAt` every time from its deadline on. -/
theorem isExpiredAt_iff :
    e.isExpiredAt now = true ↔
      ∃ deadline, e.expiresAt.map UInt64.toNat = some deadline ∧ deadline ≤ now.toNat := by
  cases h : e.expiresAt <;> simp [isExpiredAt, h, UInt64.le_iff_toNat_le]

/-- It is live as long as its deadline is to come. -/
theorem isExpiredAt_eq_false :
    e.isExpiredAt now = false ↔ ∀ deadline ∈ e.expiresAt, now < deadline := by
  unfold isExpiredAt
  cases e.expiresAt <;> simp

/-- A span ends as many milliseconds after the present as the clock counts of it, or at the
largest time if that is sooner. -/
theorem expiresAt_after :
    (e.apply (.after d) now).expiresAt.map UInt64.toNat =
      some (min (now.toNat + d.onClock) (2 ^ 64 - 1)) := by
  simp [apply, Expiry.deadline, toNat_saturatingAdd, Span.onClock, UInt64.size]

/-- The millisecond at which a lifetime from `now` on ends. -/
theorem expiresAt_ofTtl :
    (e.apply (.ofTtl ttl) now).expiresAt.map UInt64.toNat =
      if ttl = 0 then none else some (min (now.toNat + 1000 * ttl.toNat) (2 ^ 64 - 1)) := by
  unfold Expiry.ofTtl
  split
  · rfl
  · rw [expiresAt_after, Span.onClock_ofTtl]

/-- An entry without a deadline is live at all times. -/
theorem live_never : (e.apply .never now).isExpiredAt t = false := rfl

/-- A span is over at the largest time, however long it is. -/
theorem live_after :
    (e.apply (.after d) now).isExpiredAt t = false ↔
      t.toNat < min (now.toNat + d.onClock) (2 ^ 64 - 1) := by
  rw [← Bool.not_eq_true, isExpiredAt_iff, expiresAt_after]
  simp

/-- A live entry has no lifetime, or its lifetime is not over. -/
theorem live_ofTtl :
    (e.apply (.ofTtl ttl) now).isExpiredAt t = false ↔
      ttl = 0 ∨ t.toNat < min (now.toNat + 1000 * ttl.toNat) (2 ^ 64 - 1) := by
  rw [← Bool.not_eq_true, isExpiredAt_iff, expiresAt_ofTtl]
  split <;> simp [*]

end Entry

/-! ## Lifetimes compared -/

namespace Expiry

variable {d d₁ d₂ : Span} {ttl₁ ttl₂ : UInt32}

/-- To whatever entry and whenever the two apply: at every time at which the entry is
live under the second, it is live under the first. -/
def Outlasts (x y : Expiry) : Prop :=
  ∀ (e : Entry) (now t : UInt64),
    (e.apply y now).isExpiredAt t = false → (e.apply x now).isExpiredAt t = false

/-- `never` outlasts every lifetime. -/
theorem never_outlasts (x : Expiry) : never.Outlasts x := fun _ _ _ _ => Entry.live_never

/-- No span lasts beyond the largest time. -/
theorem not_after_outlasts_never : ¬ (after d).Outlasts never := by
  intro h
  have hlive := Entry.live_after.mp (h (.create .empty 0 0) 0 (UInt64.ofNat (2 ^ 64 - 1)) rfl)
  have hlargest : (UInt64.ofNat (2 ^ 64 - 1)).toNat = 2 ^ 64 - 1 := by decide
  omega

/-- **Which spans outlast which**: what the clock counts (`onClock`) decides, whatever
the spans. -/
theorem after_outlasts_after :
    (after d₂).Outlasts (after d₁) ↔ d₁.onClock ≤ d₂.onClock := by
  constructor
  · intro h
    refine Nat.le_of_not_lt fun hlt => ?_
    -- Applied at 0, the second span is over when the clock shows its count, and the first is not.
    have hbound := d₁.onClock_lt
    have hcount : (UInt64.ofNat d₂.onClock).toNat = d₂.onClock :=
      UInt64.toNat_ofNat_of_lt' d₂.onClock_lt
    have hzero : (0 : UInt64).toNat = 0 := rfl
    have hlive₁ : ((Entry.create .empty 0 0).apply (after d₁) 0).isExpiredAt
        (UInt64.ofNat d₂.onClock) = false := Entry.live_after.mpr (by omega)
    have hlive₂ := Entry.live_after.mp (h _ _ _ hlive₁)
    omega
  · intro hle e now t hlive
    have hlive := Entry.live_after.mp hlive
    exact Entry.live_after.mpr (by omega)

/-- Of lifetimes in seconds, 0 outlasts all, and any other is outlasted by the larger ones. -/
theorem ofTtl_outlasts_ofTtl :
    (ofTtl ttl₂).Outlasts (ofTtl ttl₁) ↔ ttl₂ = 0 ∨ ttl₁ ≠ 0 ∧ ttl₁ ≤ ttl₂ := by
  by_cases hzero₂ : ttl₂ = 0
  · simp [ofTtl, hzero₂, never_outlasts]
  · by_cases hzero₁ : ttl₁ = 0
    · simp [ofTtl, hzero₁, hzero₂, not_after_outlasts_never]
    · simp only [ofTtl, hzero₁, hzero₂, if_false, after_outlasts_after, Span.onClock_ofTtl,
        UInt32.le_iff_toNat_le, Nat.mul_le_mul_left_iff (show 0 < 1000 by decide), ne_eq,
        not_false_eq_true, true_and, false_or]

/-- **A longer lifetime never expires earlier**, as long as the clock counts all of it. No end
outlasts any span; of two spans the longer outlasts the shorter if its milliseconds fit the
clock; and under a span that fits an entry is live for all of its milliseconds, save at the
largest time. Spans that do not fit are the only exception: a span counts as its milliseconds
modulo 2^64, and these decide which span outlasts which and how long an entry lives. -/
theorem longer_outlasts (hle : d₁.toNanos ≤ d₂.toNanos) :
    never.Outlasts (after d₁) ∧
      (d₂.millis < 2 ^ 64 → (after d₂).Outlasts (after d₁)) ∧
      ((after d₂).Outlasts (after d₁) ↔ d₁.millis % 2 ^ 64 ≤ d₂.millis % 2 ^ 64) ∧
      ∀ (d : Span) (e : Entry) (now t : UInt64), now ≤ t → t.toNat ≠ 2 ^ 64 - 1 →
        (d.millis < 2 ^ 64 → t.toNat - now.toNat < d.millis →
          (e.apply (after d) now).isExpiredAt t = false) ∧
        ((e.apply (after d) now).isExpiredAt t = false ↔
          t.toNat - now.toNat < d.millis % 2 ^ 64) := by
  refine ⟨never_outlasts _, fun hfits => ?_, after_outlasts_after, fun d e now t hnow ht => ?_⟩
  · exact after_outlasts_after.mpr (Span.onClock_le_onClock hle hfits)
  · have hnow := UInt64.le_iff_toNat_le.mp hnow
    have hbound := t.toNat_lt
    have hlive : (e.apply (after d) now).isExpiredAt t = false ↔
        t.toNat - now.toNat < d.onClock := by
      rw [Entry.live_after]
      omega
    refine ⟨fun hfits hlt => ?_, hlive⟩
    rwa [hlive, Span.onClock_eq_millis hfits]

/-- A second and the longest span that fits the clock, whose deadline is the largest time. -/
theorem longer_outlasts_largest :
    let short : Span := .ofSeconds 1
    let long : Span := ⟨18446744073709551, 615000000, by decide⟩
    short.toNanos ≤ long.toNanos ∧ long.millis = 2 ^ 64 - 1 ∧
      (after long).Outlasts (after short) ∧
      ((Entry.create .empty 0 0).apply (after long) 1700000000000).isExpiredAt
        (UInt64.ofNat (2 ^ 64 - 2)) = false := by
  intro short long
  have hle : short.toNanos ≤ long.toNanos := by decide
  obtain ⟨-, hfits, -, hlives⟩ := longer_outlasts hle
  refine ⟨hle, by decide, hfits (by decide), ?_⟩
  exact (hlives long _ _ _ (by decide) (by decide)).1 (by decide) (by decide)

/-- Of 18446744073709552 seconds the clock counts 384 milliseconds, so that a second outlasts
them: half a second later only the entry that was to live for a second is live. -/
theorem shorter_outlasts_wrapped :
    let short : Span := .ofSeconds 1
    let long : Span := .ofSeconds 18446744073709552
    let e := Entry.create .empty 0 1700000000000
    short.toNanos ≤ long.toNanos ∧ 500 < long.millis ∧
      (e.apply (after short) 1700000000000).isExpiredAt 1700000000500 = false ∧
      (e.apply (after long) 1700000000000).isExpiredAt 1700000000500 = true := by
  decide

end Expiry

end CacheService
