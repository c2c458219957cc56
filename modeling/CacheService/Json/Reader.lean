import CacheService.Json.Token

/-!
# CacheService.Json.Reader

Reading JSON values from bytes. Arrays and objects may be nested in up to 127
levels, which the depth counts down; loops over items are bounded by a limit
that the length of the whole text meets, since every item takes a byte.
-/

namespace CacheService.Json

/-- The depth of a text's outermost level: one more than may be entered. -/
def fullDepth : Nat := 128

/-! ## Items and members -/

/-- The bytes from the next item of an array, or nothing at its end. -/
def nextItem? (first : Bool) (bs : List UInt8) : Except ReadFault (Option (List UInt8)) :=
  match skipBlanks bs with
  | [] => .error .malformed
  | b :: rest =>
    if b = byte ']' then .ok none
    else if first then .ok (some (b :: rest))
    else if b = byte ',' then
      match skipBlanks rest with
      | [] => .error .malformed
      | b :: rest => if b = byte ']' then .error .malformed else .ok (some (b :: rest))
    else .error .malformed

/-- Steps over the end of an array. -/
def endItems (bs : List UInt8) : Except ReadFault (List UInt8) :=
  match skipBlanks bs with
  | b :: rest => if b = byte ']' then .ok rest else .error .malformed
  | [] => .error .malformed

/-- The key of the next member of an object with the bytes behind it, or
nothing at the object's end. -/
def nextKey? (first : Bool) (bs : List UInt8) :
    Except ReadFault (Option (String × List UInt8)) :=
  let key (bs : List UInt8) : Except ReadFault (Option (String × List UInt8)) :=
    match bs with
    | b :: rest => if b = byte '"' then (readString rest).map some else .error .malformed
    | [] => .error .malformed
  match skipBlanks bs with
  | [] => .error .malformed
  | b :: rest =>
    if b = byte '\x7d' then .ok none
    else if first then key (b :: rest)
    else if b = byte ',' then key (skipBlanks rest)
    else .error .malformed

/-- Steps over the colon behind a key. -/
def readColon (bs : List UInt8) : Except ReadFault (List UInt8) :=
  match skipBlanks bs with
  | b :: rest => if b = byte ':' then .ok rest else .error .malformed
  | [] => .error .malformed

/-- Steps over the end of an object. -/
def endMembers (bs : List UInt8) : Except ReadFault (List UInt8) :=
  match skipBlanks bs with
  | b :: rest => if b = byte '\x7d' then .ok rest else .error .malformed
  | [] => .error .malformed

/-- Reads the items of an array behind its bracket, in up to `limit` rounds. -/
def readItems {α : Type} (item : Reader α) : (limit : Nat) → (first : Bool) → (acc : List α) →
    Reader (List α)
  | 0, _, _, _ => .error .malformed
  | limit + 1, first, acc, bs =>
    match nextItem? first bs with
    | .error e => .error e
    | .ok none => (endItems bs).map (acc.reverse, ·)
    | .ok (some bs) =>
      match item bs with
      | .error e => .error e
      | .ok (x, bs) => readItems item limit false (x :: acc) bs

/-- Reads the members of an object behind its brace, in up to `limit` rounds. -/
def readMembers {α : Type} (value : Reader α) : (limit : Nat) → (first : Bool) →
    (acc : List (String × α)) → Reader (List (String × α))
  | 0, _, _, _ => .error .malformed
  | limit + 1, first, acc, bs =>
    match nextKey? first bs with
    | .error e => .error e
    | .ok none => (endMembers bs).map (acc.reverse, ·)
    | .ok (some (key, bs)) =>
      match readColon bs with
      | .error e => .error e
      | .ok bs =>
        match value bs with
        | .error e => .error e
        | .ok (x, bs) => readMembers value limit false ((key, x) :: acc) bs

/-! ## Values -/

/-- Reads any value. The depth is the number of levels that are left, this one
included. -/
def readValue (limit : Nat) : (depth : Nat) → Reader Json
  | 0, _ => .error .malformed
  | depth + 1, bs =>
    match skipBlanks bs with
    | [] => .error .malformed
    | b :: rest =>
      if b = byte 'n' then (readWord nullTail rest).map (.null, ·)
      else if b = byte 't' then (readWord trueTail rest).map (.bool true, ·)
      else if b = byte 'f' then (readWord falseTail rest).map (.bool false, ·)
      else if b = byte '"' then (readString rest).map fun (s, rest) => (.string s, rest)
      else if b = byte '-' then (readNumber true rest).map fun (n, rest) => (.number n, rest)
      else if (digit? b).isSome then
        (readNumber false (b :: rest)).map fun (n, rest) => (.number n, rest)
      else if b = byte '[' then
        if depth = 0 then .error .malformed
        else
          (readItems (readValue limit depth) limit true [] rest).map fun (items, rest) =>
            (.array items, rest)
      else if b = byte '\x7b' then
        if depth = 0 then .error .malformed
        else
          (readMembers (readValue limit depth) limit true [] rest).map fun (fields, rest) =>
            (object fields, rest)
      else .error .malformed

/-- Steps over any value, however deep; the limit bounds depth and length. -/
def skipValue (limit : Nat) : (depth : Nat) → List UInt8 → Except ReadFault (List UInt8)
  | 0, _ => .error .malformed
  | depth + 1, bs =>
    match skipBlanks bs with
    | [] => .error .malformed
    | b :: rest =>
      if b = byte 'n' then readWord nullTail rest
      else if b = byte 't' then readWord trueTail rest
      else if b = byte 'f' then readWord falseTail rest
      else if b = byte '"' then skipString .plain rest
      else if b = byte '-' then skipNumber rest
      else if (digit? b).isSome then skipNumber (b :: rest)
      else if b = byte '[' then skipItems (skipValue limit depth) limit true rest
      else if b = byte '\x7b' then skipMembers (skipValue limit depth) limit true rest
      else .error .malformed
where
  /-- Steps over the items of an array. -/
  skipItems (item : List UInt8 → Except ReadFault (List UInt8)) : Nat → Bool → List UInt8 →
      Except ReadFault (List UInt8)
    | 0, _, _ => .error .malformed
    | limit + 1, first, bs =>
      match nextItem? first bs with
      | .error e => .error e
      | .ok none => endItems bs
      | .ok (some bs) =>
        match item bs with
        | .error e => .error e
        | .ok bs => skipItems item limit false bs
  /-- The bytes behind the next key of an object, or nothing at its end. -/
  nextSkippedKey? (first : Bool) (bs : List UInt8) : Except ReadFault (Option (List UInt8)) :=
    let key (bs : List UInt8) : Except ReadFault (Option (List UInt8)) :=
      match bs with
      | b :: rest => if b = byte '"' then (skipString .plain rest).map some else .error .malformed
      | [] => .error .malformed
    match skipBlanks bs with
    | [] => .error .malformed
    | b :: rest =>
      if b = byte '\x7d' then .ok none
      else if first then key (b :: rest)
      else if b = byte ',' then key (skipBlanks rest)
      else .error .malformed
  /-- Steps over the members of an object. -/
  skipMembers (value : List UInt8 → Except ReadFault (List UInt8)) : Nat → Bool → List UInt8 →
      Except ReadFault (List UInt8)
    | 0, _, _ => .error .malformed
    | limit + 1, first, bs =>
      match nextSkippedKey? first bs with
      | .error e => .error e
      | .ok none => endMembers bs
      | .ok (some bs) =>
        match readColon bs with
        | .error e => .error e
        | .ok bs =>
          match value bs with
          | .error e => .error e
          | .ok bs => skipMembers value limit false bs

/-! ## Whole texts -/

/-- Runs a reader on bytes of which nothing but blanks may be left behind. -/
def readAll {α : Type} (reader : Reader α) (bs : List UInt8) : Except ReadFault α :=
  match reader bs with
  | .error e => .error e
  | .ok (x, rest) => if (skipBlanks rest).isEmpty then .ok x else .error .malformed

/-- The value that a text writes. -/
def ofBytes (bytes : ByteArray) : Except ReadFault Json :=
  readAll (readValue (bytes.size + 1) fullDepth) bytes.toList

end CacheService.Json
