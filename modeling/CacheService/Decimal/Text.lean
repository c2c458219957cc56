import CacheService.Decimal.Shortest

/-!
# CacheService.Decimal.Text

The text of a floating-point number: its shortest digits, positional while the
exponent is small and with an exponent beyond.
-/

namespace CacheService.Decimal

/-- How digits are laid out. -/
structure Layout where
  /-- The least and the greatest decimal exponent written positionally. -/
  leastPositional : Int
  greatestPositional : Int
  /-- What stands before an exponent that is not negative. -/
  exponentSign : List Char

/-- The layout of numbers in stored values: `0.00001` to `1000000000000000.0`
are positional, and a large exponent has a plus sign. -/
def Layout.standard : Layout := ⟨-5, 15, ['+']⟩

/-- The digits with a point behind the first `whole` of them, zeros filled in
on either side so that a digit stands before and behind the point. -/
def positional (digits : List Char) (whole : Int) : List Char :=
  if whole ≤ 0 then '0' :: '.' :: (List.replicate (-whole).toNat '0' ++ digits)
  else
    let front := digits.take whole.toNat
    let filled := front ++ List.replicate (whole.toNat - front.length) '0'
    let back := digits.drop whole.toNat
    filled ++ '.' :: (if back.isEmpty then ['0'] else back)

/-- The digits with a point behind the first and the exponent after an `e`. -/
def withExponent (layout : Layout) (digits : List Char) (exponent : Int) : List Char :=
  let mantissa :=
    match digits with
    | [] => []
    | [d] => [d]
    | d :: rest => d :: '.' :: rest
  let sign := if exponent < 0 then ['-'] else layout.exponentSign
  mantissa ++ 'e' :: (sign ++ Nat.toDigits 10 exponent.natAbs)

/-- The text of a size. -/
def magnitudeText (layout : Layout) (x : Magnitude) : List Char :=
  let d := shortest x
  let digits := Nat.toDigits 10 d.digits
  let exponent := d.exponent + (digits.length : Int) - 1
  if layout.leastPositional ≤ exponent ∧ exponent ≤ layout.greatestPositional then
    positional digits (exponent + 1)
  else withExponent layout digits exponent

/-- The text of a finite number. -/
def Binary64.text (layout : Layout) (x : Binary64) : List Char :=
  let size := magnitudeText layout x.magnitude
  if x.isNegative then '-' :: size else size

end CacheService.Decimal
