import CacheService.Schema.Basic

/-!
# CacheService.Schema.BinaryForm

The binary form of values, written and read along their schema: numbers in
little-endian order at their full width, a length of eight bytes before
everything whose length varies, one byte before an optional value, and four
bytes for the position of a case. Bytes behind a value are left alone.
-/

namespace CacheService.Schema

/-! ## Numbers in bytes -/

/-- The lowest `width` bytes of a number, the lowest first. -/
def littleEndian : (width : Nat) → Nat → List UInt8
  | 0, _ => []
  | width + 1, n => UInt8.ofNat (n % 256) :: littleEndian width (n / 256)

/-- The number that some bytes write, the lowest first. -/
def ofLittleEndian : List UInt8 → Nat
  | [] => 0
  | b :: bs => b.toNat + 256 * ofLittleEndian bs

/-- The natural number that stands for an integer in two's complement. -/
def toComplement (bytes : Nat) (n : Int) : Nat := (n % (Nat.pow 256 bytes : Nat)).toNat

/-- The integer in two's complement that a natural number stands for. -/
def ofComplement (bytes : Nat) (n : Nat) : Int :=
  if n < Nat.pow 2 (8 * bytes - 1) then n else (n : Int) - (Nat.pow 256 bytes : Nat)

/-! ## Writing -/

/-- A length of eight bytes. -/
def lengthBytes (n : Nat) : List UInt8 := littleEndian 8 n

/-- A text behind its length. -/
def textBytes (s : String) : List UInt8 := lengthBytes s.utf8ByteSize ++ s.toUTF8.toList

mutual

/-- A JSON value writes what it holds and nothing of its kind, so it cannot be
told from the bytes again. -/
def jsonBytes : Json → List UInt8
  | .null => []
  | .bool b => [if b then 1 else 0]
  | .number (.integer n) => littleEndian 8 (toComplement 8 n)
  | .number (.float x) => littleEndian 8 x.bits.toNat
  | .string s => textBytes s
  | .array items => lengthBytes items.length ++ jsonItemBytes items
  | .members fields => lengthBytes fields.length ++ jsonMemberBytes fields

def jsonItemBytes : List Json → List UInt8
  | [] => []
  | item :: rest => jsonBytes item ++ jsonItemBytes rest

def jsonMemberBytes : List (String × Json) → List UInt8
  | [] => []
  | (key, value) :: rest => textBytes key ++ (jsonBytes value ++ jsonMemberBytes rest)

end

mutual

/-- The bytes of a datum. -/
def toBytes : Schema → Datum → Option (List UInt8)
  | .natural bytes, .int n => some (littleEndian bytes n.toNat)
  | .integer bytes, .int n => some (littleEndian bytes (toComplement bytes n))
  | .bool, .bool b => some [if b then 1 else 0]
  | .char, .char c => some (String.singleton c).toUTF8.toList
  | .string, .string s => some (textBytes s)
  | .unit, .unit => some []
  | .float, .float x => some (littleEndian 8 x.bits.toNat)
  | .json, .json j => some (jsonBytes j)
  | .option _, .none => some [0]
  | .option item, .some d => (item.toBytes d).map (1 :: ·)
  | .list item, .items ds =>
    (ds.mapM (item.toBytes ·)).map fun bs => lengthBytes ds.length ++ bs.flatten
  | .dictionary value, .dictionary es =>
    (es.mapM fun kv => (value.toBytes kv.2).map (textBytes kv.1 ++ ·)).map fun bs =>
      lengthBytes es.length ++ bs.flatten
  | .table key value, .table es =>
    (es.mapM fun (kv : Datum × Datum) =>
      (key.toBytes kv.1).bind fun k => (value.toBytes kv.2).map (k ++ ·)).map
        fun bs => lengthBytes es.length ++ bs.flatten
  | .tuple items, .items ds => itemsToBytes items ds
  | .record fields, .items ds => fieldsToBytes fields ds
  | .choice cases, .choice index content =>
    (caseToBytes cases index content).map (littleEndian 4 index ++ ·)
  | _, _ => none

def itemsToBytes : List Schema → List Datum → Option (List UInt8)
  | [], [] => some []
  | s :: ss, d :: ds => do
    let b ← s.toBytes d
    let bs ← itemsToBytes ss ds
    pure (b ++ bs)
  | _, _ => none

def fieldsToBytes : List (String × Schema) → List Datum → Option (List UInt8)
  | [], [] => some []
  | (_, s) :: ss, d :: ds => do
    let b ← s.toBytes d
    let bs ← fieldsToBytes ss ds
    pure (b ++ bs)
  | _, _ => none

def caseToBytes : List (String × Schema) → Nat → Datum → Option (List UInt8)
  | [], _, _ => none
  | (_, s) :: _, 0, content => s.toBytes content
  | _ :: cases, index + 1, content => caseToBytes cases index content

end

/-! ## Reading -/

/-- Reads a part of the bytes and gives back the rest. -/
abbrev ByteReader (α : Type) := List UInt8 → Option (α × List UInt8)

/-- Reads so many bytes. -/
def readBlock (n : Nat) : ByteReader (List UInt8) := fun bs =>
  let block := bs.take n
  if block.length = n then some (block, bs.drop n) else none

/-- Reads a number of so many bytes. -/
def readWidth (width : Nat) : ByteReader Nat := fun bs =>
  (readBlock width bs).map fun (block, rest) => (ofLittleEndian block, rest)

/-- Reads a text behind its length. -/
def readTextBytes : ByteReader String := fun bs => do
  let (n, bs) ← readWidth 8 bs
  let (block, bs) ← readBlock n bs
  let s ← String.fromUTF8? (ByteArray.mk block.toArray)
  pure (s, bs)

/-- The number of bytes that a character takes whose first byte is given, none
if no character begins so. -/
def charWidth (b : UInt8) : Nat :=
  if b < 0x80 then 1
  else if b < 0xC2 then 0
  else if b < 0xE0 then 2
  else if b < 0xF0 then 3
  else if b < 0xF5 then 4
  else 0

/-- Reads the bytes of one character. -/
def readCharBytes : ByteReader Char := fun bs => do
  let first ← bs.head?
  let (block, bs) ← readBlock (max 1 (charWidth first)) bs
  let s ← String.fromUTF8? (ByteArray.mk block.toArray)
  let c ← s.toList.head?
  pure (c, bs)

/-- Reads so many items one after another. -/
def readRepeated {α : Type} (item : ByteReader α) : (count : Nat) → (acc : List α) →
    ByteReader (List α)
  | 0, acc, bs => some (acc.reverse, bs)
  | count + 1, acc, bs =>
    match item bs with
    | none => none
    | some (x, bs) => readRepeated item count (x :: acc) bs

/-- Reads items behind their number. -/
def readCounted {α : Type} (item : ByteReader α) : ByteReader (List α) := fun bs => do
  let (count, bs) ← readWidth 8 bs
  readRepeated item count [] bs

/-- Reads one thing and then another. -/
def readPair {α β : Type} (a : ByteReader α) (b : ByteReader β) : ByteReader (α × β) := fun bs => do
  let (x, bs) ← a bs
  let (y, bs) ← b bs
  pure ((x, y), bs)

mutual

/-- Reads a datum of a schema. -/
def readBinary : Schema → ByteReader Datum
  | .natural bytes => fun bs => (readWidth bytes bs).map fun (n, rest) => (.int n, rest)
  | .integer bytes => fun bs =>
    (readWidth bytes bs).map fun (n, rest) => (.int (ofComplement bytes n), rest)
  | .bool => fun bs =>
    match bs with
    | 0 :: rest => some (.bool false, rest)
    | 1 :: rest => some (.bool true, rest)
    | _ => none
  | .char => fun bs => (readCharBytes bs).map fun (c, rest) => (.char c, rest)
  | .string => fun bs => (readTextBytes bs).map fun (s, rest) => (.string s, rest)
  | .unit => fun bs => some (.unit, bs)
  | .float => fun bs =>
    (readWidth 8 bs).map fun (n, rest) => (.float ⟨UInt64.ofNat n⟩, rest)
  | .json => fun _ => none
  | .option item => fun bs =>
    match bs with
    | 0 :: rest => some (.none, rest)
    | 1 :: rest => (item.readBinary rest).map fun (d, rest) => (.some d, rest)
    | _ => none
  | .list item => fun bs =>
    (readCounted item.readBinary bs).map fun (ds, rest) => (.items ds, rest)
  | .dictionary value => fun bs =>
    (readCounted (readPair readTextBytes value.readBinary) bs).map fun (es, rest) =>
      (.dictionary (Datum.sortEntries compare es), rest)
  | .table key value => fun bs =>
    (readCounted (readPair key.readBinary value.readBinary) bs).map fun (es, rest) =>
      (.table (Datum.sortEntries Datum.compareKeys es), rest)
  | .tuple items => fun bs => (readItemsBinary items bs).map fun (ds, rest) => (.items ds, rest)
  | .record fields => fun bs =>
    (readFieldsBinary fields bs).map fun (ds, rest) => (.items ds, rest)
  | .choice cases => fun bs => do
    let (index, bs) ← readWidth 4 bs
    let (content, bs) ← readCaseBinary cases index bs
    pure (.choice index content, bs)

def readItemsBinary : List Schema → ByteReader (List Datum)
  | [] => fun bs => some ([], bs)
  | s :: ss => fun bs => do
    let (d, bs) ← s.readBinary bs
    let (ds, bs) ← readItemsBinary ss bs
    pure (d :: ds, bs)

def readFieldsBinary : List (String × Schema) → ByteReader (List Datum)
  | [] => fun bs => some ([], bs)
  | (_, s) :: ss => fun bs => do
    let (d, bs) ← s.readBinary bs
    let (ds, bs) ← readFieldsBinary ss bs
    pure (d :: ds, bs)

def readCaseBinary : List (String × Schema) → Nat → ByteReader Datum
  | [], _ => fun _ => none
  | (_, s) :: _, 0 => s.readBinary
  | _ :: cases, index + 1 => readCaseBinary cases index

end

end CacheService.Schema
