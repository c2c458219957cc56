/-!
# CacheService.Span

A length of time, as whole seconds and the nanoseconds of the second begun,
and its short text (`1.5s`, `300ms`).
-/

namespace CacheService

/-- A length of time of up to 2^64 seconds. -/
structure Span where
  secs : UInt64
  nanos : Nat := 0
  nanos_lt : nanos < 1000000000 := by decide
  deriving DecidableEq, Repr

namespace Span

/-- Whole seconds. -/
def ofSeconds (n : UInt64) : Span := ⟨n, 0, by decide⟩

/-- Whole milliseconds. -/
def ofMillis (n : UInt64) : Span :=
  ⟨n / 1000, (n.toNat % 1000) * 1000000, by omega⟩

/-- Seconds and nanoseconds; nanoseconds of a second or more carry over, and
the longest span stands for one that would be longer. -/
def ofParts (secs : UInt64) (nanos : Nat) : Span :=
  if secs.toNat + nanos / 1000000000 < UInt64.size then
    ⟨UInt64.ofNat (secs.toNat + nanos / 1000000000), nanos % 1000000000, Nat.mod_lt _ (by decide)⟩
  else ⟨UInt64.ofNat (UInt64.size - 1), 999999999, by decide⟩

/-- The length in nanoseconds, which orders spans. -/
def toNanos (d : Span) : Nat := d.secs.toNat * 1000000000 + d.nanos

/-- The whole milliseconds. -/
def millis (d : Span) : Nat := d.secs.toNat * 1000 + d.nanos / 1000000

/-- No time at all. -/
def isZero (d : Span) : Bool := d.secs == 0 && d.nanos == 0

theorem toNanos_ofSeconds (n : UInt64) : (ofSeconds n).toNanos = n.toNat * 1000000000 := by
  simp [ofSeconds, toNanos]

/-- Milliseconds are nanoseconds rounded down. -/
theorem millis_eq (d : Span) : d.millis = d.toNanos / 1000000 := by
  unfold millis toNanos; omega

/-! ## Text -/

/-- The digits of a fraction given in units of which `scale` digits make one
whole, without trailing zeros. -/
def fraction (scale n : Nat) : List Char :=
  let digits := Nat.toDigits 10 n
  let padded := List.replicate (scale - digits.length) '0' ++ digits
  (padded.reverse.dropWhile (· == '0')).reverse

/-- A whole number, a point and a fraction if there is one, and the unit. -/
def decimal (whole scale part : Nat) (unit : String) : String :=
  let digits := if part = 0 then [] else fraction scale part
  let point := if digits.isEmpty then [] else '.' :: digits
  toString whole ++ String.ofList point ++ unit

/-- The text in the largest unit of which there is at least one whole. -/
def text (d : Span) : String :=
  if 0 < d.secs then decimal d.secs.toNat 9 d.nanos "s"
  else if 1000000 ≤ d.nanos then decimal (d.nanos / 1000000) 6 (d.nanos % 1000000) "ms"
  else if 1000 ≤ d.nanos then decimal (d.nanos / 1000) 3 (d.nanos % 1000) "µs"
  else decimal d.nanos 0 0 "ns"

end Span

end CacheService
