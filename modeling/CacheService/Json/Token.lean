import CacheService.Json.Basic
import CacheService.Text.Hex

/-!
# CacheService.Json.Token

The tokens of JSON on bytes: blanks, words, strings and numbers. A reader takes
the bytes from where it stands and gives back what it read with the bytes
behind it. Strings are judged byte by byte with one state, so that escapes,
surrogate pairs and the encoding need no look-ahead.
-/

namespace CacheService.Json

/-- Why a text is refused: it is not JSON, or it is JSON of another shape than
the one asked for. -/
inductive ReadFault
  | malformed
  | mismatch
  deriving DecidableEq, Repr

/-- Reads a part of the bytes and gives back the rest. -/
abbrev Reader (α : Type) := List UInt8 → Except ReadFault (α × List UInt8)

/-- The byte of an ASCII character. -/
def byte (c : Char) : UInt8 := UInt8.ofNat c.toNat

def isBlankByte (b : UInt8) : Bool := b == 0x20 || b == 0x0A || b == 0x09 || b == 0x0D

/-- The bytes from the first that is not blank. -/
def skipBlanks (bs : List UInt8) : List UInt8 := bs.dropWhile isBlankByte

/-- The value of a byte that is an ASCII digit. -/
def digit? (b : UInt8) : Option Nat :=
  if 0x30 ≤ b && b ≤ 0x39 then some (b.toNat - 0x30) else none

/-! ## Words -/

/-- Steps over the bytes of a word. -/
def readWord (word : List UInt8) (bs : List UInt8) : Except ReadFault (List UInt8) :=
  match word, bs with
  | [], bs => .ok bs
  | _ :: _, [] => .error .malformed
  | w :: word, b :: bs => if w = b then readWord word bs else .error .malformed

def nullTail : List UInt8 := "ull".toUTF8.toList
def trueTail : List UInt8 := "rue".toUTF8.toList
def falseTail : List UInt8 := "alse".toUTF8.toList

/-! ## Strings -/

/-- Where a string stands between two of its bytes. -/
inductive StringState
  | plain
  /-- Behind a backslash. -/
  | escape
  /-- Inside the four digits of a code unit, of which some are left; the high
  unit of a pair may have come before. -/
  | hex (left : Nat) (code : Nat) (high : Option Nat)
  /-- Behind a high unit, before the backslash of the low one. -/
  | pairBackslash (high : Nat)
  /-- Behind that backslash. -/
  | pairLetter (high : Nat)
  deriving DecidableEq, Repr

/-- The byte that a one-letter escape stands for. -/
def escaped? (b : UInt8) : Option UInt8 :=
  if b = byte '"' || b = byte '\\' || b = byte '/' then some b
  else if b = byte 'b' then some 0x08
  else if b = byte 'f' then some 0x0C
  else if b = byte 'n' then some 0x0A
  else if b = byte 'r' then some 0x0D
  else if b = byte 't' then some 0x09
  else none

/-- Adds the encoding of a code point to bytes that are kept in reverse. -/
def pushCode (acc : List UInt8) (code : Nat) : List UInt8 :=
  (String.singleton (Char.ofNat code)).toUTF8.toList.reverse ++ acc

/-- What a whole code unit does: a high unit waits for its partner, and a low
one needs it. -/
def closeUnit (acc : List UInt8) (code : Nat) : Option Nat → Option (StringState × List UInt8)
  | none =>
    if 0xD800 ≤ code && code ≤ 0xDBFF then some (.pairBackslash code, acc)
    else if 0xDC00 ≤ code && code ≤ 0xDFFF then none
    else some (.plain, pushCode acc code)
  | some high =>
    if 0xDC00 ≤ code && code ≤ 0xDFFF then
      some (.plain, pushCode acc (0x10000 + (high - 0xD800) * 0x400 + (code - 0xDC00)))
    else none

/-- One byte further inside a string, unless it is refused there. -/
def stringStep (acc : List UInt8) (b : UInt8) : StringState → Option (StringState × List UInt8)
  | .plain =>
    if b = byte '\\' then some (.escape, acc)
    else if b < 0x20 then none
    else some (.plain, b :: acc)
  | .escape =>
    if b = byte 'u' then some (.hex 4 0 none, acc)
    else (escaped? b).map fun e => (.plain, e :: acc)
  | .hex left code high =>
    match Text.hexValue? b with
    | none => none
    | some d =>
      if left ≤ 1 then closeUnit acc (16 * code + d) high
      else some (.hex (left - 1) (16 * code + d) high, acc)
  | .pairBackslash high => if b = byte '\\' then some (.pairLetter high, acc) else none
  | .pairLetter high => if b = byte 'u' then some (.hex 4 0 (some high), acc) else none

/-- Reads the bytes of a string up to its closing quote, which only the plain
state takes for one. -/
def stringBytes (state : StringState) (acc : List UInt8) : Reader (List UInt8)
  | [] => .error .malformed
  | b :: bs =>
    if state = .plain && b = byte '"' then .ok (acc.reverse, bs)
    else
      match stringStep acc b state with
      | none => .error .malformed
      | some (state, acc) => stringBytes state acc bs

/-- Reads a string behind its opening quote. -/
def readString : Reader String := fun bs =>
  match stringBytes .plain [] bs with
  | .error e => .error e
  | .ok (content, rest) =>
    match String.fromUTF8? (ByteArray.mk content.toArray) with
    | some s => .ok (s, rest)
    | none => .error .malformed

/-- Steps over a string behind its opening quote. Neither the encoding nor the
pairing of surrogates is judged. -/
def skipString (state : StringState) : List UInt8 → Except ReadFault (List UInt8)
  | [] => .error .malformed
  | b :: bs =>
    if state = .plain && b = byte '"' then .ok bs
    else
      match state with
      | .hex left _ _ =>
        match Text.hexValue? b with
        | none => .error .malformed
        | some _ => skipString (if left ≤ 1 then .plain else .hex (left - 1) 0 none) bs
      | state =>
        match stringStep [] b state with
        | none => .error .malformed
        | some (state, _) => skipString state bs

/-! ## Numbers -/

/-- A run of digits that was added to a significand of 64 bits. -/
structure DigitRun where
  significand : Nat
  taken : Nat
  /-- Whether the run ended at a digit that did not fit any more. -/
  full : Bool
  rest : List UInt8

/-- Adds digits to a significand while it fits 64 bits. -/
def takeDigits (significand taken : Nat) : List UInt8 → DigitRun
  | [] => ⟨significand, taken, false, []⟩
  | b :: bs =>
    match digit? b with
    | none => ⟨significand, taken, false, b :: bs⟩
    | some d =>
      if 10 * significand + d < 2 ^ 64 then takeDigits (10 * significand + d) (taken + 1) bs
      else ⟨significand, taken, true, b :: bs⟩

/-- The number of digits at the front, and what is behind them. -/
def skipDigits (count : Nat) : List UInt8 → Nat × List UInt8
  | [] => (count, [])
  | b :: bs => if (digit? b).isSome then skipDigits (count + 1) bs else (count, b :: bs)

/-- Divides by the largest power of ten while the exponent is beyond the table
of powers, in up to `rounds` rounds, then scales by the power that is left.
There is no result where it would be infinite. -/
def scale (x : Float) (exponent : Int) : (rounds : Nat) → Option Float
  | 0 => some x
  | rounds + 1 =>
    if exponent.natAbs ≤ 308 then
      let power := Float.ofScientific 1 false exponent.natAbs
      if 0 ≤ exponent then
        let y := x * power
        if y.isInf then none else some y
      else some (x / power)
    else if x == 0.0 then some x
    else if 0 ≤ exponent then none
    else scale (x / 1e308) (exponent + 308) rounds

/-- The number with a significand, a decimal exponent and a sign. Three
divisions by the largest power bring every significand to zero. -/
def floatOfParts (negative : Bool) (significand : Nat) (exponent : Int) :
    Except ReadFault JsonNumber :=
  match scale (UInt64.ofNat significand).toFloat exponent 5 with
  | none => .error .malformed
  | some x => .ok (.float (.ofFloat (if negative then -x else x)))

/-- Adds digits to an exponent while it fits 31 bits. -/
def takeExponent (exponent : Nat) : List UInt8 → Nat × Bool × List UInt8
  | [] => (exponent, false, [])
  | b :: bs =>
    match digit? b with
    | none => (exponent, false, b :: bs)
    | some d =>
      if 10 * exponent + d < 2 ^ 31 then takeExponent (10 * exponent + d) bs
      else (exponent, true, b :: bs)

/-- Reads the exponent behind its letter and gives the number. An exponent that
is too long makes zero of zero and of a small number, and is refused else. -/
def readExponent (negative : Bool) (significand : Nat) (start : Int) :
    Reader JsonNumber := fun bs =>
  let (negativeExponent, bs) :=
    match bs with
    | b :: rest =>
      if b = byte '+' then (false, rest) else if b = byte '-' then (true, rest) else (false, bs)
    | [] => (false, [])
  match bs with
  | [] => .error .malformed
  | b :: rest =>
    match digit? b with
    | none => .error .malformed
    | some d =>
      match takeExponent d rest with
      | (_, true, rest) =>
        if significand ≠ 0 ∧ !negativeExponent then .error .malformed
        else
          let zero : Float := if negative then -0.0 else 0.0
          .ok (.float (.ofFloat zero), (skipDigits 0 rest).2)
      | (exponent, false, rest) => do
        let total := if negativeExponent then start - exponent else start + exponent
        let x ← floatOfParts negative significand total
        pure (x, rest)

/-- Whether a byte begins an exponent. -/
def isExponentLetter (b : UInt8) : Bool := b = byte 'e' || b = byte 'E'

/-- Reads an exponent if there is one, and gives the number. -/
def readTail (negative : Bool) (significand : Nat) (exponent : Int) : Reader JsonNumber := fun bs =>
  match bs with
  | b :: rest =>
    if isExponentLetter b then readExponent negative significand exponent rest
    else (floatOfParts negative significand exponent).map (·, bs)
  | [] => (floatOfParts negative significand exponent).map (·, bs)

/-- Reads the digits behind a point, of which there must be one, and gives the
number. Digits that no longer fit are left out. -/
def readFraction (negative : Bool) (significand : Nat) (start : Int) :
    Reader JsonNumber := fun bs =>
  let run := takeDigits significand 0 bs
  let exponent := start - run.taken
  if run.full then readTail negative run.significand exponent (skipDigits 0 run.rest).2
  else if run.taken = 0 then .error .malformed
  else readTail negative run.significand exponent run.rest

/-- A number without point and exponent. A negative one beyond 64 bits, and
minus zero, are floating-point numbers. -/
def integerOfParts (negative : Bool) (significand : Nat) : JsonNumber :=
  if negative then
    if significand = 0 ∨ Nat.pow 2 63 < significand then
      .float (.ofFloat (-(UInt64.ofNat significand).toFloat))
    else .integer (-(significand : Int))
  else .integer significand

/-- Gives the number whose leading digits are read. -/
def readNumberTail (negative : Bool) (significand : Nat) : Reader JsonNumber := fun bs =>
  match bs with
  | b :: rest =>
    if b = byte '.' then readFraction negative significand 0 rest
    else if isExponentLetter b then readExponent negative significand 0 rest
    else .ok (integerOfParts negative significand, bs)
  | [] => .ok (integerOfParts negative significand, bs)

/-- Gives the number whose leading digits do not fit 64 bits; the digits that
are left count in the exponent. -/
def readLongTail (negative : Bool) (significand : Nat) : Reader JsonNumber := fun bs =>
  let (count, bs) := skipDigits 0 bs
  match bs with
  | b :: rest =>
    if b = byte '.' then readFraction negative significand count rest
    else readTail negative significand count bs
  | [] => readTail negative significand count []

/-- Reads a number behind its sign. A zero in front stands alone. -/
def readNumber (negative : Bool) : Reader JsonNumber := fun bs =>
  match bs with
  | [] => .error .malformed
  | b :: rest =>
    match digit? b with
    | none => .error .malformed
    | some 0 =>
      match rest with
      | next :: _ =>
          if (digit? next).isSome then .error .malformed else readNumberTail negative 0 rest
      | [] => readNumberTail negative 0 rest
    | some d =>
      let run := takeDigits d 1 rest
      if run.full then readLongTail negative run.significand run.rest
      else readNumberTail negative run.significand run.rest

/-- Steps over one or more digits. -/
def skipSomeDigits (bs : List UInt8) : Except ReadFault (List UInt8) :=
  match skipDigits 0 bs with
  | (0, _) => .error .malformed
  | (_, rest) => .ok rest

/-- Steps over an exponent behind its letter. -/
def skipExponent : List UInt8 → Except ReadFault (List UInt8)
  | [] => .error .malformed
  | b :: rest =>
    if b = byte '+' || b = byte '-' then skipSomeDigits rest else skipSomeDigits (b :: rest)

/-- Steps over an exponent if there is one. -/
def skipTail : List UInt8 → Except ReadFault (List UInt8)
  | [] => .ok []
  | b :: rest => if isExponentLetter b then skipExponent rest else .ok (b :: rest)

/-- Steps over a number behind its sign, whatever its size. -/
def skipNumber : List UInt8 → Except ReadFault (List UInt8)
  | [] => .error .malformed
  | b :: rest => do
    let rest ←
      match digit? b with
      | none => .error .malformed
      | some 0 =>
        match rest with
        | next :: _ => if (digit? next).isSome then .error .malformed else .ok rest
        | [] => .ok rest
      | some _ => .ok (skipDigits 0 rest).2
    match rest with
    | [] => pure []
    | b :: rest =>
      if b = byte '.' then do
        let rest ← skipSomeDigits rest
        skipTail rest
      else skipTail (b :: rest)

end CacheService.Json
