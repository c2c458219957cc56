/-!
# CacheService.Text.Scalar

Truth values and single characters in texts.
-/

namespace CacheService.Text

/-- The fault of a text that is no truth value. -/
inductive BoolFault
  | neither
  deriving DecidableEq, Repr

def BoolFault.message : BoolFault → String
  | .neither => "provided string was not \x60true\x60 or \x60false\x60"

/-- `true` or `false`, in this spelling. -/
def readBool (s : String) : Except BoolFault Bool :=
  if s = "true" then .ok true
  else if s = "false" then .ok false
  else .error .neither

/-- Why a text is no single character. -/
inductive CharFault
  | empty
  | many
  deriving DecidableEq, Repr

def CharFault.message : CharFault → String
  | .empty => "cannot parse char from empty string"
  | .many => "too many characters in string"

/-- The character of a text that holds one. -/
def readChar (s : String) : Except CharFault Char :=
  match s.toList with
  | [] => .error .empty
  | [c] => .ok c
  | _ => .error .many

end CacheService.Text
