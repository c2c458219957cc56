import CacheService.Error

/-!
# CacheService.Remote.Key

What the remote client does with a key and a lifetime before it sends them: which keys a
server takes (`validateKey`), which node a key belongs to (`nodeIndex`), and how a
lifetime is written on the wire (`wireExpiration`).

The hash is FNV-1a on 32 bits (`hashKey`): every client that has the same nodes in the
same order finds a key on the same node.
-/

namespace CacheService.Remote

/-! ## Keys -/

/-- The longest key in bytes. -/
def maxKeyLength : Nat := 250

/-- A byte that a key may not hold: a control character or the space. -/
def isForbiddenByte (b : UInt8) : Bool := b ≤ 0x20 || b == 0x7F

/-- Why a server does not take a key, if it does not. -/
def keyFault? (key : String) : Option RequestFault :=
  if key.utf8ByteSize = 0 ∨ maxKeyLength < key.utf8ByteSize then some (.keyLength key.utf8ByteSize)
  else if key.toUTF8.toList.any isForbiddenByte then some (.keyCharacters key)
  else none

/-- Refuses a key that a server does not take. -/
def validateKey (key : String) : Except CacheError Unit :=
  match keyFault? key with
  | some fault => .error (.invalidRequest fault)
  | none => .ok ()

/-! ## Nodes -/

/-- One byte further in the hash of a key: exclusive or, then a product modulo
2^32. -/
def hashStep (hash : UInt32) (b : UInt8) : UInt32 := (hash ^^^ b.toUInt32) * 0x01000193

/-- The hash of a key, which every client computes alike. -/
def hashKey (key : List UInt8) : UInt32 := key.foldl hashStep 0x811C9DC5

/-- The node that a key belongs to. -/
def nodeIndex (key : List UInt8) (nodes : Nat) : Nat :=
  if nodes ≤ 1 then 0 else (hashKey key).toNat % nodes

/-- The node is one of those there are. -/
theorem nodeIndex_lt (key : List UInt8) {nodes : Nat} (h : 0 < nodes) :
    nodeIndex key nodes < nodes := by
  unfold nodeIndex
  split
  · exact h
  · exact Nat.mod_lt _ h

/-! ## Lifetimes -/

/-- The longest lifetime that a server reads as seconds from now on. -/
def maxRelativeSeconds : Nat := 2592000

/-- The largest time on the wire. -/
def maxWireTime : Int := Int.ofNat (Nat.pow 2 63 - 1)

/-- A lifetime on the wire: seconds from now on up to 30 days, beyond that the
second of the deadline, which is capped at the largest time. -/
def wireExpiration (ttl : UInt32) (unixSeconds : Int) : Int :=
  if ttl.toNat ≤ maxRelativeSeconds then ttl.toNat else min (unixSeconds + ttl.toNat) maxWireTime

end CacheService.Remote
