import CacheService.Json.Printer
import CacheService.Json.Reader
import CacheService.Schema.Basic

/-!
# CacheService.Schema.JsonForm

The JSON form of values, written and read along their schema. Reading takes
what it needs from the bytes in one pass, so the first fault from the left
decides: a wrong shape before it is a mismatch, even if the text goes on badly.
Records and their like are read from objects and from arrays in field order;
members that no field has are stepped over.
-/

namespace CacheService.Schema

open Json

/-! ## Writing -/

mutual

/-- The JSON value of a datum. Tables have none unless they are empty, since
the keys of an object are texts. -/
def toJson : Schema → Datum → Option Json
  | .natural _, .int n => some (.int n)
  | .integer _, .int n => some (.int n)
  | .bool, .bool b => some (.bool b)
  | .char, .char c => some (.string (String.singleton c))
  | .string, .string s => some (.string s)
  | .unit, .unit => some .null
  | .float, .float x => some (.float x)
  | .json, .json j => some j
  | .option _, .none => some .null
  | .option item, .some d => item.toJson d
  | .list item, .items ds => (ds.mapM (item.toJson ·)).map .array
  | .dictionary value, .dictionary es =>
    (es.mapM fun kv => (value.toJson kv.2).map (kv.1, ·)).map .members
  | .table _ _, .table es => if es.isEmpty then some (.members []) else none
  | .tuple items, .items ds => (itemsToJson items ds).map .array
  | .record fields, .items ds => (fieldsToJson fields ds).map .members
  | .choice cases, .choice index content => caseToJson cases index content
  | _, _ => none

/-- The values of a tuple. -/
def itemsToJson : List Schema → List Datum → Option (List Json)
  | [], [] => some []
  | s :: ss, d :: ds => do
    let j ← s.toJson d
    let js ← itemsToJson ss ds
    pure (j :: js)
  | _, _ => none

/-- The members of a record, in the order of its fields. -/
def fieldsToJson : List (String × Schema) → List Datum → Option (List (String × Json))
  | [], [] => some []
  | (name, s) :: ss, d :: ds => do
    let j ← s.toJson d
    let js ← fieldsToJson ss ds
    pure ((name, j) :: js)
  | _, _ => none

/-- A case by its name: alone if it has no content, else in an object. -/
def caseToJson : List (String × Schema) → Nat → Datum → Option Json
  | [], _, _ => none
  | (name, .unit) :: _, 0, .unit => some (.string name)
  | (name, s) :: _, 0, content => (s.toJson content).map fun j => .members [(name, j)]
  | _ :: cases, index + 1, content => caseToJson cases index content

end

/-! ## Reading -/

/-- The fault of a value that is not of the wanted type: a mismatch, unless the
value breaks off before its own end can be told. -/
def otherShape (bs : List UInt8) : ReadFault :=
  let blame {α : Type} : Except ReadFault α → ReadFault
    | .error e => e
    | .ok _ => .mismatch
  match bs with
  | [] => .malformed
  | b :: rest =>
    if b = byte 'n' then blame (readWord nullTail rest)
    else if b = byte 't' then blame (readWord trueTail rest)
    else if b = byte 'f' then blame (readWord falseTail rest)
    else if b = byte '-' then blame (readNumber true rest)
    else if (digit? b).isSome then blame (readNumber false bs)
    else if b = byte '"' then blame (readString rest)
    else if b = byte '[' || b = byte '\x7b' then .mismatch
    else .malformed

/-- Reads a number of which `accept` makes a datum. -/
def readNumeric (accept : JsonNumber → Option Datum) : Reader Datum := fun bs =>
  let bs := skipBlanks bs
  let judge : JsonNumber × List UInt8 → Except ReadFault (Datum × List UInt8)
    | (n, rest) =>
      match accept n with
      | some d => .ok (d, rest)
      | none => .error .mismatch
  match bs with
  | [] => .error .malformed
  | b :: rest =>
    if b = byte '-' then readNumber true rest >>= judge
    else if (digit? b).isSome then readNumber false bs >>= judge
    else .error (otherShape bs)

/-- A whole number that belongs to a type. -/
def acceptWhole (fits : Int → Bool) : JsonNumber → Option Datum
  | .integer n => if fits n then some (.int n) else none
  | .float _ => none

/-- Any number, as a floating-point one. -/
def acceptFloat : JsonNumber → Option Datum
  | .float x => some (.float x)
  | .integer n =>
    let size := (UInt64.ofNat n.natAbs).toFloat
    some (.float (.ofFloat (if n < 0 then -size else size)))

/-- Reads a string of which `accept` makes a datum. -/
def readText (accept : String → Option Datum) : Reader Datum := fun bs =>
  let bs := skipBlanks bs
  match bs with
  | [] => .error .malformed
  | b :: rest =>
    if b = byte '"' then
      match readString rest with
      | .error e => .error e
      | .ok (s, rest) =>
        match accept s with
        | some d => .ok (d, rest)
        | none => .error .mismatch
    else .error (otherShape bs)

/-- The text of one character. -/
def acceptChar (s : String) : Option Datum :=
  match s.toList with
  | [c] => some (.char c)
  | _ => none

/-- Reads an array, whose bracket is stepped over, one level deeper. -/
def readArray {α : Type} (depth : Nat) (inside : (depth : Nat) → Reader α) : Reader α := fun bs =>
  let bs := skipBlanks bs
  match bs with
  | [] => .error .malformed
  | b :: rest =>
    if b = byte '[' then (if depth ≤ 1 then .error .malformed else inside (depth - 1) rest)
    else .error (otherShape bs)

/-- Reads an object, whose brace is stepped over, one level deeper. -/
def readObject {α : Type} (depth : Nat) (inside : (depth : Nat) → Reader α) : Reader α := fun bs =>
  let bs := skipBlanks bs
  match bs with
  | [] => .error .malformed
  | b :: rest =>
    if b = byte '\x7b' then (if depth ≤ 1 then .error .malformed else inside (depth - 1) rest)
    else .error (otherShape bs)

/-- The datum of a field that an object does not have. -/
def missing? : Schema → Option Datum
  | .option _ => some .none
  | _ => none

/-- The position of a name among named things. -/
def position? {α : Type} (name : String) (named : List (String × α)) : Option Nat :=
  named.findIdx? (·.1 = name)

/-- The fields of a record that have been read, `none` for those that have not. -/
abbrev Slots := List (Option Datum)

/-- The data of all fields, where an optional field may be missing. -/
def closeSlots : List (String × Schema) → Slots → Option (List Datum)
  | [], _ => some []
  | (_, s) :: fields, slot :: slots => do
    let d ← slot.or (missing? s)
    let ds ← closeSlots fields slots
    pure (d :: ds)
  | (_, s) :: fields, [] => do
    let d ← missing? s
    let ds ← closeSlots fields []
    pure (d :: ds)

/-- Reads the members of a record behind its brace, in up to `limit` rounds.
`readers` reads the fields by position. A member that comes twice, and a field
that does not come at all, are mismatches. -/
def readSlots (fields : List (String × Schema)) (readers : List (Reader Datum)) (skip : List UInt8 →
    Except ReadFault (List UInt8)) : (limit : Nat) → (first : Bool) → Slots → Reader Datum
  | 0, _, _, _ => .error .malformed
  | limit + 1, first, slots, bs =>
    match nextKey? first bs with
    | .error e => .error e
    | .ok none =>
      match closeSlots fields slots with
      | some ds => (endMembers bs).map (.items ds, ·)
      | none => .error .mismatch
    | .ok (some (key, bs)) =>
      match (position? key fields).bind fun i => (readers[i]?).map (i, ·) with
      | none =>
        match readColon bs >>= skip with
        | .error e => .error e
        | .ok bs => readSlots fields readers skip limit false slots bs
      | some (i, reader) =>
        if ((slots[i]?).getD none).isSome then .error .mismatch
        else
          match readColon bs >>= reader with
          | .error e => .error e
          | .ok (d, bs) => readSlots fields readers skip limit false (slots.set i (some d)) bs

/-- Reads the items of an array of fixed length behind its bracket; `missing`
stands in for optional items behind the array's end. -/
def readFixed : (items : List (Option Datum × Reader Datum)) → (first : Bool) →
    (acc : List Datum) → Reader Datum
  | [], _, acc, bs => (endItems bs).map (.items acc.reverse, ·)
  | (missing, item) :: items, first, acc, bs =>
    match nextItem? first bs with
    | .error e => .error e
    | .ok none =>
      match missing with
      | some d => readFixed items first (d :: acc) bs
      | none => .error .mismatch
    | .ok (some bs) =>
      match item bs with
      | .error e => .error e
      | .ok (d, bs) => readFixed items false (d :: acc) bs

/-- Reads a record from an object, or from an array in field order, where
`defaults` stand in for the fields the array is too short for. -/
def readRecord (limit depth : Nat) (fields : List (String × Schema))
    (defaults : List (Option Datum))
    (readers : (depth : Nat) → List (Reader Datum)) : Reader Datum := fun bs =>
  let bs := skipBlanks bs
  match bs with
  | [] => .error .malformed
  | b :: rest =>
    if b = byte '[' then
      if depth ≤ 1 then .error .malformed
      else readFixed (defaults.zip (readers (depth - 1))) true [] rest
    else if b = byte '\x7b' then
      if depth ≤ 1 then .error .malformed
      else
        readSlots fields (readers (depth - 1)) (skipValue limit limit) limit true
          (fields.map fun _ => none) rest
    else .error (otherShape bs)

/-- Reads one case of a choice: a bare name for a case without content, else an
object of the name and the content. -/
def readChoice (depth : Nat) (cases : List (String × Schema))
    (readers : (depth : Nat) → List (Reader Datum)) : Reader Datum := fun bs =>
  match skipBlanks bs with
  | [] => .error .malformed
  | b :: rest =>
    if b = byte '"' then do
      let (name, rest) ← readString rest
      match position? name cases with
      | none => .error .mismatch
      | some i =>
        match cases[i]? with
        | some (_, .unit) => pure (.choice i .unit, rest)
        | _ => .error .mismatch
    else if b = byte '\x7b' then
      if depth ≤ 1 then .error .malformed
      else do
        let (name, rest) ←
          match skipBlanks rest with
          | [] => .error .malformed
          | b :: rest => if b = byte '"' then readString rest else .error (otherShape (b :: rest))
        match (position? name cases).bind fun i => ((readers (depth - 1))[i]?).map (i, ·) with
        | none => .error .mismatch
        | some (i, reader) =>
          let rest ← readColon rest
          let (content, rest) ← reader rest
          let rest ← endMembers rest
          pure (.choice i content, rest)
    else .error .malformed

mutual

/-- Reads a datum of a schema. The depth counts the levels that are left, as
for JSON values; the limit bounds the length of lists. -/
def readJson (limit : Nat) : Schema → (depth : Nat) → Reader Datum
  | .natural bytes, _ => readNumeric (acceptWhole (fitsNatural bytes))
  | .integer bytes, _ => readNumeric (acceptWhole (fitsInteger bytes))
  | .bool, _ => fun bs =>
    match skipBlanks bs with
    | [] => .error .malformed
    | b :: rest =>
      if b = byte 't' then (readWord trueTail rest).map (.bool true, ·)
      else if b = byte 'f' then (readWord falseTail rest).map (.bool false, ·)
      else .error (otherShape (b :: rest))
  | .char, _ => readText acceptChar
  | .string, _ => readText fun s => some (.string s)
  | .unit, _ => fun bs =>
    match skipBlanks bs with
    | [] => .error .malformed
    | b :: rest =>
      if b = byte 'n' then (readWord nullTail rest).map (.unit, ·)
      else .error (otherShape (b :: rest))
  | .float, _ => readNumeric acceptFloat
  | .json, depth => fun bs => (readValue limit depth bs).map fun (j, rest) => (.json j, rest)
  | .option item, depth => fun bs =>
    match skipBlanks bs with
    | b :: rest =>
      if b = byte 'n' then (readWord nullTail rest).map (.none, ·)
      else (item.readJson limit depth bs).map fun (d, rest) => (.some d, rest)
    | [] => .error .malformed
  | .list item, depth =>
    readArray depth fun depth bs =>
      (readItems (item.readJson limit depth) limit true [] bs).map fun (ds, rest) =>
        (.items ds, rest)
  | .dictionary value, depth =>
    readObject depth fun depth bs =>
      (readMembers (value.readJson limit depth) limit true [] bs).map fun (es, rest) =>
        (.dictionary (Datum.sortEntries compare es), rest)
  | .table _ _, depth =>
    readObject depth fun _ bs =>
      match nextKey? true bs with
      | .error e => .error e
      | .ok none => (endMembers bs).map (.table [], ·)
      | .ok (some _) => .error .mismatch
  | .tuple items, depth =>
    readArray depth fun depth bs =>
      readFixed ((itemReaders limit items depth).map (none, ·)) true [] bs
  | .record fields, depth =>
    readRecord limit depth fields (fields.map fun _ => none) fun depth =>
      fieldReaders limit fields depth
  | .choice cases, depth =>
    readChoice depth cases fun depth => fieldReaders limit cases depth

/-- The readers of several schemas. -/
def itemReaders (limit : Nat) : List Schema → (depth : Nat) → List (Reader Datum)
  | [], _ => []
  | s :: ss, depth => s.readJson limit depth :: itemReaders limit ss depth

/-- The readers of named schemas. -/
def fieldReaders (limit : Nat) : List (String × Schema) → (depth : Nat) → List (Reader Datum)
  | [], _ => []
  | (_, s) :: ss, depth => s.readJson limit depth :: fieldReaders limit ss depth

end

end CacheService.Schema
