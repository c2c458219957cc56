import CacheService.Decimal.Binary64

/-!
# CacheService.Decimal.Shortest

The fewest decimal digits that read back as a given floating-point number, and
of those the nearest to it. The numbers that read back as it form an interval
around it, whose ends belong to it when its mantissa is even; on each grid of
powers of ten only the two neighbours of the number need a test.
-/

namespace CacheService.Decimal

/-- The decimal number `digits * 10 ^ exponent`. -/
structure Digits where
  digits : Nat
  exponent : Int
  deriving DecidableEq, Repr

/-- The integers that compare like a multiple of `10 ^ exponent` (by the first
factor) and a multiple of `2 ^ (x.exponent - 2)` (by the second): both are
cleared of negative powers. -/
def scales (x : Magnitude) (exponent : Int) : Nat × Nat :=
  let two := x.exponent - 2
  (Nat.pow 10 exponent.toNat * Nat.pow 2 (-two).toNat,
    Nat.pow 2 two.toNat * Nat.pow 10 (-exponent).toNat)

/-- Whether `digits * 10 ^ exponent` reads back as `x`: it lies between the
midpoints towards the neighbours of `x`. -/
def readsBack (x : Magnitude) (d : Digits) : Bool :=
  let (ten, two) := scales x d.exponent
  let at_ := d.digits * ten
  let low := (if x.narrowBelow then 4 * x.mantissa - 1 else 4 * x.mantissa - 2) * two
  let high := (4 * x.mantissa + 2) * two
  if x.mantissa % 2 = 0 then low ≤ at_ && at_ ≤ high else low < at_ && at_ < high

/-- The least `k` with `x < 10 ^ k`, counted on the digits of the whole part of
`x * 10 ^ 400`, which is not zero for any nonzero number. -/
def decimalOrder (x : Magnitude) : Int :=
  let scaled :=
    x.mantissa * Nat.pow 2 x.exponent.toNat * Nat.pow 10 400 / Nat.pow 2 (-x.exponent).toNat
  ((Nat.toDigits 10 scaled).length : Int) - 400

/-- The neighbour of `x` on the grid of `10 ^ exponent` that reads back, the
nearer of two, and the even one of two that are equally near. -/
def onGrid? (x : Magnitude) (exponent : Int) : Option Digits :=
  let (ten, two) := scales x exponent
  let value := 4 * x.mantissa * two
  let below : Digits := ⟨value / ten, exponent⟩
  let above : Digits := ⟨value / ten + 1, exponent⟩
  match readsBack x below, readsBack x above with
  | false, false => none
  | true, false => some below
  | false, true => some above
  | true, true =>
    match compare (2 * value) ((below.digits + above.digits) * ten) with
    | .lt => some below
    | .gt => some above
    | .eq => some (if below.digits % 2 = 0 then below else above)

/-- Tries grids of ever more digits, up to `rounds` of them. -/
def search (x : Magnitude) (exponent : Int) : (rounds : Nat) → Digits
  | 0 => ⟨x.mantissa * 2 ^ x.exponent.toNat * 5 ^ (-x.exponent).toNat,
      if x.exponent < 0 then x.exponent else 0⟩
  | rounds + 1 =>
    match onGrid? x exponent with
    | some d => d
    | none => search x (exponent - 1) rounds

/-- Moves trailing zeros of the digits into the exponent, up to `rounds`. -/
def stripZeros (d : Digits) : (rounds : Nat) → Digits
  | 0 => d
  | rounds + 1 =>
    if d.digits ≠ 0 ∧ d.digits % 10 = 0 then stripZeros ⟨d.digits / 10, d.exponent + 1⟩ rounds
    else d

/-- The shortest decimal of a number, and of the shortest the nearest. -/
def shortest (x : Magnitude) : Digits :=
  if x.mantissa = 0 then ⟨0, 0⟩
  else
    let found := search x (decimalOrder x - 1) 17
    stripZeros found (Nat.toDigits 10 found.digits).length

end CacheService.Decimal
