import CacheService.Text.Hex

/-!
# CacheService.Http.Target

The target of a request: which part of it is the path, and what the escapes
in a segment of a path stand for: `unescape` reads a percent sign and two
hexadecimal digits (`Text.hexValue?`) as one byte.
-/

namespace CacheService.Http

/-! ## The path -/

/-- A character that ends the path. -/
def endsPath (c : Char) : Bool := c == '?' || c == '#'

/-- What follows the first `://`, if there is one. -/
def afterScheme? : List Char → Option (List Char)
  | [] => none
  | ':' :: '/' :: '/' :: rest => some rest
  | _ :: rest => afterScheme? rest

/-- The path of a target: of `/a?b` it is `/a`, and so it is of a whole address
with a scheme and an authority in front. A mere authority has no path. -/
def pathOf (target : List Char) : List Char :=
  match target with
  | '/' :: _ => target.takeWhile (!endsPath ·)
  | ['*'] => ['*']
  | _ =>
    match afterScheme? target with
    | none => []
    | some rest =>
      match (rest.dropWhile fun c => !(c == '/' || endsPath c)).takeWhile (!endsPath ·) with
      | [] => ['/']
      | path => path

/-! ## Escapes -/

/-- The bytes that a segment stands for: a percent sign and two hexadecimal
digits are one byte, and a percent sign that stands otherwise is itself. -/
def unescape : List UInt8 → List UInt8
  | [] => []
  | 0x25 :: a :: b :: rest =>
    match Text.hexValue? a, Text.hexValue? b with
    | some high, some low => UInt8.ofNat (16 * high + low) :: unescape rest
    | _, _ => 0x25 :: unescape (a :: b :: rest)
  | b :: rest => b :: unescape rest

/-- The text that a segment stands for, unless its bytes are no text. -/
def segmentText? (segment : List Char) : Option String :=
  String.fromUTF8? ⟨(unescape (String.ofList segment).toUTF8.toList).toArray⟩

end CacheService.Http
