import CacheService.Proofs.Expiry
import CacheService.Remote.Key
import CacheService.World
import Mathlib.Algebra.Group.Int.Defs
import Mathlib.Tactic.SplitIfs

/-!
# CacheService.Proofs.Remote.Lifetime

A lifetime on the wire beside the same lifetime in the local store. The client writes a short
lifetime as seconds from now on and a longer one as the second of its end, and a server reads
both back (`serverDeadline_wireExpiration`). The local store keeps the millisecond of the end.
Of one write, the two ends differ by the milliseconds that the second of the write had run
(`expiresAt_eq_serverDeadline`): the server counts whole seconds.
-/

namespace CacheService

/-- A clock shows a time that is not negative and not too large as it is. -/
theorem toNat_clockReading {millis : Nat} (h : millis < 2 ^ 64) :
    (clockReading millis).toNat = millis :=
  UInt64.toNat_ofNat_of_lt' h

namespace Remote

/-! ## The wire -/

/-- How a server reads the time on the wire with a value that arrives at some second: the second
from which on it holds the value no longer. 0 stands for never, what is below 0 is over at once,
up to 30 days are seconds from the arrival on, and anything beyond is a second since 1970. -/
def serverDeadline (arrival wire : Int) : Option Int :=
  if wire = 0 then none
  else if wire < 0 then some arrival
  else if wire ≤ 60 * 60 * 24 * 30 then some (arrival + wire)
  else some wire

/-- What the client writes, a server reads as the end of the lifetime: the second of the
deadline is never so small that it would be taken for a count of seconds. -/
theorem serverDeadline_wireExpiration {ttl : UInt32} {second : Int} (hsecond : 0 ≤ second)
    (hcap : second + ttl.toNat ≤ maxWireTime) :
    serverDeadline second (wireExpiration ttl second) =
      if ttl = 0 then none else some (second + ttl.toNat) := by
  have hzero : ttl = 0 ↔ ttl.toNat = 0 := UInt32.toNat_inj.symm
  have hmax : maxRelativeSeconds = 2592000 := rfl
  unfold wireExpiration
  by_cases hshort : ttl.toNat ≤ maxRelativeSeconds
  · simp only [serverDeadline, if_pos hshort, hzero]
    split_ifs <;> first | rfl | omega
  · rw [if_neg hshort, Int.min_eq_left hcap]
    simp only [serverDeadline, hzero]
    split_ifs <;> first | rfl | omega

/-! ## Both -/

/-- **One end for both backends**, which read one clock: the local deadline is the second that
a server reads, and as many milliseconds as the second of the write had run. -/
theorem expiresAt_eq_serverDeadline {σ : Type} {w : World σ} (e : Entry) (ttl : UInt32)
    (hclock : 0 ≤ w.clock) (hend : w.clock + 1000 * ttl.toNat < 2 ^ 64) :
    (e.apply (.ofTtl ttl) w.now).expiresAt.map (fun deadline => (deadline.toNat : Int)) =
      (serverDeadline w.unixSeconds (wireExpiration ttl w.unixSeconds)).map
        (1000 * · + w.clock % 1000) := by
  obtain ⟨millis, hmillis⟩ := Int.eq_ofNat_of_zero_le hclock
  have hsecond : w.unixSeconds = w.clock / 1000 := Int.fdiv_eq_ediv_of_nonneg _ (by decide)
  have hnow : w.now.toNat = millis := by
    rw [World.now, hmillis]
    exact toNat_clockReading (by omega)
  have hcap : w.unixSeconds + ttl.toNat ≤ maxWireTime := by
    have hmax : maxWireTime = 2 ^ 63 - 1 := rfl
    omega
  rw [serverDeadline_wireExpiration (by omega) hcap, ← Function.comp_def, ← Option.map_map,
    Entry.expiresAt_ofTtl, hnow]
  split_ifs with hzero
  · rfl
  · simp only [Option.map_some, Option.some.injEq]
    omega

/-- **A lifetime means the same on the wire and in the local store.** Of a write at the start of
a second, the server reads no deadline for the lifetime 0 and the end of the lifetime for any
other; the local deadline is that same moment; and at every millisecond the local entry is
expired exactly if the server, which looks at whole seconds, holds the value no longer. -/
theorem same_lifetime (e : Entry) (ttl : UInt32) (second : Nat)
    (hsecond : second + 2 ^ 32 < 2 ^ 54) :
    let onWire := serverDeadline second (wireExpiration ttl second)
    let stored := e.apply (.ofTtl ttl) (clockReading (1000 * second : Nat))
    onWire = (if ttl = 0 then none else some (second + ttl.toNat : Int)) ∧
      stored.expiresAt.map UInt64.toNat =
        (if ttl = 0 then none else some (1000 * (second + ttl.toNat))) ∧
      ∀ millis : Nat, millis < 2 ^ 64 →
        (stored.isExpiredAt (clockReading millis) = true ↔
          ∃ last, onWire = some last ∧ last ≤ (millis / 1000 : Nat)) := by
  intro onWire stored
  have httl := ttl.toNat_lt
  have hwire : onWire = if ttl = 0 then none else some (second + ttl.toNat : Int) := by
    have hmax : maxWireTime = 2 ^ 63 - 1 := rfl
    exact serverDeadline_wireExpiration (by omega) (by omega)
  have hstored : stored.expiresAt.map UInt64.toNat =
      if ttl = 0 then none else some (1000 * (second + ttl.toNat)) := by
    have hnow : (clockReading (1000 * second : Nat)).toNat = 1000 * second :=
      toNat_clockReading (by omega)
    rw [Entry.expiresAt_ofTtl, hnow, Nat.min_eq_left (by omega), Nat.mul_add]
  refine ⟨hwire, hstored, fun millis hmillis => ?_⟩
  rw [Entry.isExpiredAt_iff, toNat_clockReading hmillis, hstored, hwire]
  split_ifs with hzero
  · simp
  · simp only [Option.some.injEq, exists_eq_left']
    omega

/-- The end of 30 days and a second, written in the second 1700000000. -/
theorem same_lifetime_beyond_relative :
    let second := 1700000000
    let stored :=
      (Entry.create .empty 2592001 0).apply (.ofTtl 2592001) (clockReading (1000 * second : Nat))
    second + 2 ^ 32 < 2 ^ 54 ∧
      serverDeadline second (wireExpiration 2592001 second) = some 1702592001 ∧
      stored.expiresAt.map UInt64.toNat = some 1702592001000 := by
  obtain ⟨hwire, hstored, -⟩ :=
    same_lifetime (Entry.create .empty 2592001 0) 2592001 1700000000 (by decide)
  exact ⟨by decide, hwire, hstored⟩

end Remote

end CacheService
