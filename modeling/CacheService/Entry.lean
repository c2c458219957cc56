import CacheService.Bytes
import CacheService.Span

/-!
# CacheService.Entry

A stored value with the lifetime it was written with (`Entry`), and the policy that
turns lifetimes into deadlines (`ExpiryPolicy`). Times are milliseconds since 1970; a
clock before that reads 0 (`clockReading`).

A policy speaks when an entry is created, when it replaces a live one and when it is
read, and answers with an `Expiry`. `Expiry.deadline` makes a deadline of it: the
milliseconds of the span are taken modulo 2^64, and the sum with the clock stops at the
largest time (`saturatingAdd`), so that at that time an entry may expire as it is
written. `ExpiryPolicy.entryTtl` is the policy of a cache; the other three date entries
in the other ways that a policy has.
-/

namespace CacheService

/-- A value with its lifetime and its deadline. -/
structure Entry where
  value : ByteArray
  /-- The lifetime in seconds that the writer asked for, 0 for no end. -/
  ttl : UInt32
  createdAt : UInt64
  /-- The deadline; an entry without one never expires. -/
  expiresAt : Option UInt64
  deriving DecidableEq

/-- How long an entry lives from the moment a policy speaks. -/
inductive Expiry
  | never
  | after (span : Span)
  deriving DecidableEq, Repr

/-- What a clock of Unix milliseconds reads. -/
def clockReading (unixMillis : Int) : UInt64 := UInt64.ofNat unixMillis.toNat

/-- The sum, or the largest time if the sum is beyond it. -/
def saturatingAdd (a b : UInt64) : UInt64 :=
  if a.toNat + b.toNat < UInt64.size then a + b else UInt64.ofNat (UInt64.size - 1)

/-- The smaller of the exact sum and the largest time. -/
theorem toNat_saturatingAdd (a b : UInt64) :
    (saturatingAdd a b).toNat = min (a.toNat + b.toNat) (UInt64.size - 1) := by
  unfold saturatingAdd
  split
  · rename_i h
    rw [UInt64.toNat_add, Nat.mod_eq_of_lt h]
    exact (Nat.min_eq_left (Nat.le_pred_of_lt h)).symm
  · rw [UInt64.toNat_ofNat_of_lt' (by decide)]
    omega

namespace Expiry

/-- A lifetime of whole seconds, where 0 means no end. -/
def ofTtl (ttl : UInt32) : Expiry :=
  if ttl = 0 then .never else .after (.ofSeconds ttl.toUInt64)

/-- The deadline from `now` on. The milliseconds of the span are taken modulo
2^64. -/
def deadline (now : UInt64) : Expiry → Option UInt64
  | .never => none
  | .after span => some (saturatingAdd now (UInt64.ofNat span.millis))

end Expiry

namespace Entry

/-- Bytes of bookkeeping on top of key and value. -/
def overhead : Nat := 64

/-- A fresh entry, on which no policy has spoken yet. -/
def create (value : ByteArray) (ttl : UInt32) (now : UInt64) : Entry :=
  ⟨value, ttl, now, none⟩

/-- Puts on the deadline that `expiry` gives from `now` on. -/
def apply (e : Entry) (expiry : Expiry) (now : UInt64) : Entry :=
  { e with expiresAt := expiry.deadline now }

/-- Whether the deadline has come at `now`. An entry is expired at its deadline already. -/
def isExpiredAt (e : Entry) (now : UInt64) : Bool :=
  match e.expiresAt with
  | none => false
  | some deadline => deadline ≤ now

/-- The milliseconds that are left, if there is a deadline. -/
def remaining (e : Entry) (now : UInt64) : Option UInt64 :=
  e.expiresAt.map fun deadline => UInt64.ofNat (deadline.toNat - now.toNat)

/-- What the entry takes of a tier bounded in bytes: its key, its value and `overhead`. -/
def footprint (e : Entry) (key : String) : Nat := key.utf8ByteSize + e.value.size + overhead

/-- A text that shows the size of the value in place of the value. -/
def text (e : Entry) : String :=
  let deadline :=
    match e.expiresAt with
    | none => "None"
    | some n => "Some(" ++ toString n ++ ")"
  "CacheEntry \x7b value_len: " ++ toString e.value.size
    ++ ", ttl_seconds: " ++ toString e.ttl
    ++ ", created_at: " ++ toString e.createdAt
    ++ ", expires_at: " ++ deadline ++ " \x7d"

@[simp] theorem value_apply (e : Entry) (x : Expiry) (now : UInt64) :
    (e.apply x now).value = e.value := rfl

/-- A deadline takes no room. -/
@[simp] theorem footprint_apply (e : Entry) (x : Expiry) (now : UInt64) (key : String) :
    (e.apply x now).footprint key = e.footprint key := rfl

end Entry

/-! ## Policies -/

/-- Decides how long entries live when they are created, replaced and read. -/
structure ExpiryPolicy where
  /-- For an entry under a key that held nothing live. -/
  onCreation : Entry → Expiry
  /-- For a new entry (second) in place of a live one (first). -/
  onUpdate : Entry → Entry → Expiry
  /-- After a read; nothing keeps the deadline as it is. -/
  onAccess : Entry → Option Expiry

/-- The lifetime each entry was written with, as `Expiry.ofTtl` reads it; reads never
extend it. -/
def ExpiryPolicy.entryTtl : ExpiryPolicy where
  onCreation e := .ofTtl e.ttl
  onUpdate _ new := .ofTtl new.ttl
  onAccess _ := none

namespace ExpiryPolicy

/-- Every read starts the entry's lifetime anew. -/
def sliding : ExpiryPolicy := { entryTtl with onAccess := fun e => some (.ofTtl e.ttl) }

/-- An entry that replaces a live one takes over its lifetime. -/
def keepFirst : ExpiryPolicy := { entryTtl with onUpdate := fun old _ => .ofTtl old.ttl }

/-- An entry that has been read once never expires. -/
def pinRead : ExpiryPolicy := { entryTtl with onAccess := fun _ => some .never }

end ExpiryPolicy

end CacheService
