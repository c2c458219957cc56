import CacheService.Error
import CacheService.Schema.BinaryForm
import CacheService.Schema.JsonForm

/-!
# CacheService.Codec

Codecs turn typed values into the bytes that backends store, and back. The
cache asks nothing of a codec; the two that come with it write JSON texts and
a compact binary form.
-/

namespace CacheService

/-- Writes values of a type as bytes and reads them back; either may fail. -/
structure Codec (α : Type) where
  encode : α → Option ByteArray
  decode : ByteArray → Option α

namespace Codec

/-- The formats that come with the cache. -/
inductive Format
  | json
  | binary
  deriving DecidableEq, Repr

/-- Values of a schema as JSON texts; nothing but blanks may follow a value. -/
def json (s : Schema) : Codec Datum where
  encode d := (s.toJson d).map fun j => j.text.toUTF8
  decode bytes :=
    (Json.readAll (s.readJson (bytes.size + 1) Json.fullDepth) bytes.toList).toOption

/-- Values of a schema in their binary form; anything may follow a value. -/
def binary (s : Schema) : Codec Datum where
  encode d := (s.toBytes d).map fun bs => ByteArray.mk bs.toArray
  decode bytes := (s.readBinary bytes.toList).map (·.1)

/-- The codec of a format. -/
def ofFormat : Format → Schema → Codec Datum
  | .json => json
  | .binary => binary

variable {α : Type}

/-- Writes a value. -/
def encode? (c : Codec α) (value : α) : Except CacheError ByteArray :=
  match c.encode value with
  | some bytes => .ok bytes
  | none => .error (.serialization .unencodable)

/-- Reads a value. -/
def decode? (c : Codec α) (bytes : ByteArray) : Except CacheError α :=
  match c.decode bytes with
  | some value => .ok value
  | none => .error (.serialization .undecodable)

end Codec

end CacheService
