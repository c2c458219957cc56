import CacheService.Error
import CacheService.Text.Integer

/-!
# CacheService.Duration

Duration expressions: one or more groups of digits and a unit (`2d4h10s`),
read as a number of seconds that fits 32 bits. The scan goes from byte to byte,
and cuts the amounts and the units out of the text at the positions where runs
of digits and letters end (`runEnd`). A run does not end before it begins
(`le_runEnd`), so each group that is read leaves less to scan.
-/

namespace CacheService.Duration

/-- The largest number of seconds an expression may stand for. -/
def maxSeconds : Nat := UInt32.size - 1

/-- The lifetime of a value written without an expression: 30 days. -/
def defaultSeconds : UInt32 := 2592000

/-- Why a scan ends early. -/
inductive Failure
  /-- The text is no expression, or stands for too much. -/
  | refused
  /-- The text was to be cut inside a character. -/
  | crashed
  deriving DecidableEq, Repr

/-! ## Runs of bytes -/

def isDigitByte (b : UInt8) : Bool := 0x30 ≤ b && b ≤ 0x39

def isLetterByte (b : UInt8) : Bool := (0x41 ≤ b && b ≤ 0x5A) || (0x61 ≤ b && b ≤ 0x7A)

/-- The end of the run of bytes of the class `p` that begins at `pos`. -/
def runEnd (p : UInt8 → Bool) (bytes : ByteArray) (pos : Nat) : Nat :=
  if h : pos < bytes.size then
    if p bytes[pos] then runEnd p bytes (pos + 1) else pos
  else pos
termination_by bytes.size - pos

theorem le_runEnd (p : UInt8 → Bool) (bytes : ByteArray) (pos : Nat) :
    pos ≤ runEnd p bytes pos := by
  fun_induction runEnd p bytes pos with
  | case1 pos _ _ ih => exact Nat.le_of_succ_le ih
  | case2 => exact Nat.le_refl _
  | case3 => exact Nat.le_refl _

/-- The text between two positions, which have to be boundaries of characters. -/
def cut (s : String) (start stop : Nat) : Except Failure String :=
  if h : start ≤ stop ∧ String.Pos.Raw.IsValid s ⟨start⟩ ∧ String.Pos.Raw.IsValid s ⟨stop⟩ then
    .ok (String.extract (s.pos ⟨start⟩ h.2.1) (s.pos ⟨stop⟩ h.2.2))
  else .error .crashed

/-! ## Groups -/

/-- A number of seconds that is not too large. -/
def checked (n : Nat) : Except Failure Nat := if n ≤ maxSeconds then .ok n else .error .refused

/-- The amount that a text writes. -/
def amount (digits : String) : Except Failure Nat :=
  match Text.readNat maxSeconds digits with
  | .ok n => .ok n
  | .error _ => .error .refused

/-- The seconds of a unit. -/
def unitSeconds : String → Except Failure Nat
  | "d" => .ok 86400
  | "h" => .ok 3600
  | "mi" | "min" | "mn" => .ok 60
  | "s" => .ok 1
  | _ => .error .refused

/-- The seconds of a group that has its unit between `unitStart` and `stop`. -/
def groupSeconds (s : String) (start unitStart stop : Nat) : Except Failure Nat := do
  let n ← amount (← cut s start unitStart)
  let perUnit ← unitSeconds (← cut s unitStart stop)
  checked (n * perUnit)

/-- A group that has been read from `pos` on. -/
structure Reading (pos : Nat) where
  seconds : Nat
  /-- The position behind it. -/
  next : Nat
  advances : pos < next

/-- Reads the group at `pos`: a run of digits, then a run of letters. -/
def group (s : String) (pos : Nat) : Except Failure (Reading pos) :=
  let unitStart := runEnd isDigitByte s.toByteArray pos
  let next := runEnd isLetterByte s.toByteArray unitStart
  if h : unitStart = pos then .error .refused
  else
    have advances : pos < next :=
      Nat.lt_of_lt_of_le (Nat.lt_of_le_of_ne (le_runEnd ..) (Ne.symm h)) (le_runEnd ..)
    (groupSeconds s pos unitStart next).map fun seconds => ⟨seconds, next, advances⟩

/-! ## Expressions -/

/-- The seconds of the groups from `pos` on, on top of `total`. -/
def scan (s : String) (pos total : Nat) : Except Failure Nat :=
  if pos < s.utf8ByteSize then do
    let reading ← group s pos
    let total ← checked (total + reading.seconds)
    scan s reading.next total
  else .ok total
termination_by s.utf8ByteSize - pos
decreasing_by
  have := reading.advances
  omega

/-- The seconds of an expression. -/
def read (expression : String) : Except Failure Nat :=
  if expression.utf8ByteSize = 0 then .error .refused else scan expression 0 0

/-- Reads an expression; an error quotes it unchanged. No text is cut inside a character
(`read_ne_crashed`). -/
def parse (expression : String) : Except CacheError UInt32 :=
  match read expression with
  | .ok n => .ok (UInt32.ofNat n)
  | .error _ => .error (.invalidRequest (.badDuration expression))

/-- Reads an expression that may be missing. -/
def parseOrDefault : Option String → Except CacheError UInt32
  | none => .ok defaultSeconds
  | some expression => parse expression

end CacheService.Duration
