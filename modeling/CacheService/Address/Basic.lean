/-!
# CacheService.Address.Basic

The address of a remote cache node and its text. A host that holds a colon
stands in brackets, so that the last colon of the text always begins the port.
-/

namespace CacheService

/-- Host and port of a node. -/
structure Address where
  host : String
  port : UInt16
  deriving DecidableEq, Repr

namespace Address

/-- The text as characters. -/
def toList (a : Address) : List Char :=
  let host := a.host.toList
  let port := ':' :: (toString a.port.toNat).toList
  if ':' ∈ host then '[' :: (host ++ ']' :: port) else host ++ port

/-- The text of the address. -/
def text (a : Address) : String := String.ofList a.toList

end Address

end CacheService
