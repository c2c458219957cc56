/-!
# CacheService.Decimal.Binary64

Floating-point numbers of 64 bits, kept as their bits so that numbers which
compare equal but differ (the two zeros) stay apart. A finite number is a whole
mantissa times a power of two.
-/

namespace CacheService.Decimal

/-- The bits of a number: sign, eleven bits of exponent, 52 of fraction. -/
structure Binary64 where
  bits : UInt64
  deriving DecidableEq, Repr

namespace Binary64

def ofFloat (x : Float) : Binary64 := ⟨x.toBits⟩

/-- Whether the sign bit is set. -/
def isNegative (x : Binary64) : Bool := x.bits >>> 63 == 1

/-- The exponent field. -/
def exponentField (x : Binary64) : Nat := ((x.bits >>> 52) &&& 0x7FF).toNat

/-- The fraction field. -/
def fractionField (x : Binary64) : Nat := (x.bits &&& 0xFFFFFFFFFFFFF).toNat

/-- Neither infinite nor not a number. -/
def isFinite (x : Binary64) : Bool := x.exponentField != 0x7FF

end Binary64

/-- The size of a finite number, `mantissa * 2 ^ exponent`. -/
structure Magnitude where
  mantissa : Nat
  exponent : Int
  /-- The number below is only half as far away as the number above. -/
  narrowBelow : Bool
  deriving DecidableEq, Repr

/-- The size that the bits of a finite number stand for. -/
def Binary64.magnitude (x : Binary64) : Magnitude :=
  if x.exponentField = 0 then ⟨x.fractionField, -1074, false⟩
  else
    ⟨Nat.pow 2 52 + x.fractionField, (x.exponentField : Int) - 1075,
      x.fractionField = 0 ∧ 1 < x.exponentField⟩

end CacheService.Decimal
