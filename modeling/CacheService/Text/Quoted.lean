import CacheService.Text.Hex
import CacheService.Text.Printable

/-!
# CacheService.Text.Quoted

The quoted form of a text in messages: double quotes around it, a backslash
before quotes and backslashes, short names for the common controls, and the
code point in braces for every other hidden character.
-/

namespace CacheService.Text

/-- A hidden character by its code point. -/
def escapedCode (c : Char) : List Char :=
  '\\' :: 'u' :: '\x7b' :: (hexDigits c.toNat ++ ['\x7d'])

/-- One character inside a quoted text. -/
def quotedChar (c : Char) : List Char :=
  match c with
  | '"' => ['\\', '"']
  | '\\' => ['\\', '\\']
  | '\t' => ['\\', 't']
  | '\n' => ['\\', 'n']
  | '\r' => ['\\', 'r']
  | '\x00' => ['\\', '0']
  | c => if isPrintable c then [c] else escapedCode c

/-- The quoted form of a text. -/
def quoted (s : String) : String :=
  String.ofList ('"' :: (s.toList.flatMap quotedChar ++ ['"']))

end CacheService.Text
