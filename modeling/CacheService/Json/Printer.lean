import CacheService.Decimal.Text
import CacheService.Json.Basic
import CacheService.Text.Quoted

/-!
# CacheService.Json.Printer

The compact text of a JSON value: no blanks, members in their order, and in
strings an escape for quotes, backslashes and ASCII controls only.
-/

namespace CacheService

namespace Json

/-- A control character that has no escape of its own, by four digits. -/
def controlEscape (c : Char) : List Char :=
  let digits := Text.hexDigits c.toNat
  '\\' :: 'u' :: (List.replicate (4 - digits.length) '0' ++ digits)

/-- One character inside a string. -/
def escapeChar (c : Char) : List Char :=
  match c with
  | '"' => ['\\', '"']
  | '\\' => ['\\', '\\']
  | '\x08' => ['\\', 'b']
  | '\t' => ['\\', 't']
  | '\n' => ['\\', 'n']
  | '\x0c' => ['\\', 'f']
  | '\r' => ['\\', 'r']
  | c => if c.toNat < 0x20 then controlEscape c else [c]

/-- A string in quotes. -/
def stringText (s : String) : List Char := '"' :: (s.toList.flatMap escapeChar ++ ['"'])

def numberText : JsonNumber → List Char
  | .integer n => (toString n).toList
  | .float x => x.text .standard

mutual

/-- The text of a value, as characters. -/
def toChars : Json → List Char
  | .null => "null".toList
  | .bool true => "true".toList
  | .bool false => "false".toList
  | .number n => numberText n
  | .string s => stringText s
  | .array items => '[' :: (itemsToChars items ++ [']'])
  | .members fields => '\x7b' :: (membersToChars fields ++ ['\x7d'])

/-- Items with commas between them. -/
def itemsToChars : List Json → List Char
  | [] => []
  | [item] => item.toChars
  | item :: rest => item.toChars ++ ',' :: itemsToChars rest

/-- Members with commas between them. -/
def membersToChars : List (String × Json) → List Char
  | [] => []
  | [(key, value)] => stringText key ++ ':' :: value.toChars
  | (key, value) :: rest => stringText key ++ ':' :: (value.toChars ++ ',' :: membersToChars rest)

end

/-- The compact text of a value. -/
def text (j : Json) : String := String.ofList j.toChars

end Json

end CacheService
