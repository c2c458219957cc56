import CacheService.Duration
import CacheService.Remote.Key
import CacheService.Schema.JsonForm
import CacheService.Text.Blank

/-!
# CacheService.Http.WriteRequest

What a client asks to be written (`WriteRequest`): a key, any JSON value, and a lifetime
in seconds or as an expression. It is read from an object, or from an array in field
order whose tail may be missing, by the reader of records that also reads stored values
(`Schema.readRecord`).

A request that reads is still judged by `WriteRequest.check`: first its key, by stricter
rules than those of the remote client (`keyFault?`), then its lifetime.
-/

namespace CacheService.Http

/-- A request to write a value. -/
structure WriteRequest where
  key : String
  value : Json
  ttl : Option UInt32
  /-- Counts only where there is no `ttl`. -/
  expiration : Option String

namespace WriteRequest

/-! ## Reading -/

/-- The fields and their types. -/
def fields : List (String × Schema) :=
  [("key", .string), ("value", .json), ("ttl", .option (.natural 4)),
    ("expiration", .option .string)]

/-- What stands for the fields behind the end of an array. -/
def defaults : List (Option Datum) := [none, none, some .none, some .none]

/-- The request whose fields a datum holds. -/
def ofDatum : Datum → Option WriteRequest
  | .items [.string key, .json value, ttl, expiration] => do
    let ttl ← match ttl with
      | .none => some none
      | .some (.int n) => some (some (UInt32.ofNat n.toNat))
      | _ => none
    let expiration ← match expiration with
      | .none => some none
      | .some (.string s) => some (some s)
      | _ => none
    pure { key, value, ttl, expiration }
  | _ => none

/-- Reads a request at the front of bytes; lists in it may have up to `limit`
items. -/
def reader (limit : Nat) : Json.Reader WriteRequest := fun bs =>
  match Schema.readRecord limit Json.fullDepth fields defaults
      (Schema.fieldReaders limit fields ·) bs with
  | .error e => .error e
  | .ok (d, rest) =>
    match ofDatum d with
    | some r => .ok (r, rest)
    | none => .error .mismatch

/-- The request that begins a body; what follows it does not matter. -/
def ofBody (body : ByteArray) : Except Json.ReadFault WriteRequest :=
  (reader (body.size + 1) body.toList).map (·.1)

/-- The request that is the whole of a text. -/
def ofText (text : String) : Except Json.ReadFault WriteRequest :=
  Json.readAll (reader (text.utf8ByteSize + 1)) text.toUTF8.toList

/-! ## Checking -/

/-- Why a key is not taken, if it is not: it must have from 1 up to 250 bytes, and
no blank and no control character. -/
def keyFault? (key : String) : Option RequestFault :=
  if key.isEmpty then some .emptyKey
  else if Remote.maxKeyLength < key.utf8ByteSize then some .longKey
  else if key.toList.any fun c => Text.isBlank c || Text.isControl c then some .blankKey
  else none

/-- The lifetime in seconds: as given, else by the expression, else the default. -/
def lifetime (r : WriteRequest) : Except CacheError UInt32 :=
  match r.ttl with
  | some ttl => .ok ttl
  | none => Duration.parseOrDefault r.expiration

/-- The lifetime of a request that may be carried out; its key is judged before
its lifetime. -/
def check (r : WriteRequest) : Except CacheError UInt32 :=
  match keyFault? r.key with
  | some fault => .error (.invalidRequest fault)
  | none => r.lifetime

end WriteRequest

end CacheService.Http
