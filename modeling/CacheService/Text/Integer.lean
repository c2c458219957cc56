/-!
# CacheService.Text.Integer

Integers of a fixed width in texts: an optional sign (a minus only where the
type has negative values), then ASCII digits and nothing else. A text that is
not one is refused for one of four causes, and the first that the digits show
from the left wins.
-/

namespace CacheService.Text

/-- Why a text is no integer of the wanted type. -/
inductive IntegerFault
  | empty
  | invalidDigit
  | tooLarge
  | tooSmall
  deriving DecidableEq, Repr

/-- The wording of a fault. -/
def IntegerFault.message : IntegerFault → String
  | .empty => "cannot parse integer from empty string"
  | .invalidDigit => "invalid digit found in string"
  | .tooLarge => "number too large to fit in target type"
  | .tooSmall => "number too small to fit in target type"

/-- The value of an ASCII digit. -/
def digitValue? (c : Char) : Option Nat :=
  if c.isDigit then some (c.toNat - '0'.toNat) else none

/-- Appends the digits to `acc`, which may not pass `max`; `excess` is the fault
of a value beyond it. A digit is judged before the value it would give, and
nothing is read after the first fault. -/
def readDigits (max : Nat) (excess : IntegerFault) (acc : Nat) : List Char → Except IntegerFault Nat
  | [] => .ok acc
  | c :: cs =>
    match digitValue? c with
    | none => .error .invalidDigit
    | some d =>
        if 10 * acc + d ≤ max then readDigits max excess (10 * acc + d) cs else .error excess

/-- Digits of which there is at least one. -/
def readMagnitude (max : Nat) (excess : IntegerFault) (cs : List Char) : Except IntegerFault Nat :=
  if cs.isEmpty then .error .invalidDigit else readDigits max excess 0 cs

/-- A natural number up to `max`: a plus sign may stand before it. -/
def readNat (max : Nat) (s : String) : Except IntegerFault Nat :=
  match s.toList with
  | [] => .error .empty
  | '+' :: cs => readMagnitude max .tooLarge cs
  | cs => readMagnitude max .tooLarge cs

/-- An integer of `bits` bits in two's complement: either sign may stand
before it. -/
def readInt (bits : Nat) (s : String) : Except IntegerFault Int :=
  match s.toList with
  | [] => .error .empty
  | '+' :: cs => (readMagnitude (Nat.pow 2 (bits - 1) - 1) .tooLarge cs).map Int.ofNat
  | '-' :: cs => (readMagnitude (Nat.pow 2 (bits - 1)) .tooSmall cs).map fun n => -(n : Int)
  | cs => (readMagnitude (Nat.pow 2 (bits - 1) - 1) .tooLarge cs).map Int.ofNat

/-- Digits that are read never pass the bound. -/
theorem readDigits_le {max acc n : Nat} {excess : IntegerFault} {cs : List Char}
    (hacc : acc ≤ max) (h : readDigits max excess acc cs = .ok n) : n ≤ max := by
  induction cs generalizing acc with
  | nil => simp only [readDigits, Except.ok.injEq] at h; omega
  | cons c cs ih =>
    rw [readDigits] at h
    split at h
    · simp at h
    · split at h
      · exact ih (by assumption) h
      · simp at h

end CacheService.Text
