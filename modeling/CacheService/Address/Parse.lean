import CacheService.Address.Basic
import CacheService.Error
import CacheService.Properties

/-!
# CacheService.Address.Parse

Reading addresses: one address (`Address.parse`), a list of them (`parseList`), and the
node list of a configuration (`ofProperties`). The last colon begins the port; brackets
around the host are taken off (`bareHost`).

The nodes of a configuration stand under `cache.remote.host`, or under keys with a
number, `cache.remote.<N>.host`, which are read in the order of their numbers
(`numberedHosts`). A key whose number does not read as one of 32 bits is none of them.
-/

namespace CacheService

namespace Address

open Text (isBlank splitList)

/-! ## One address -/

/-- What stands before and behind the last character `sep`. -/
def splitLast? (sep : Char) (cs : List Char) : Option (List Char × List Char) :=
  let back := cs.reverse
  match back.dropWhile (· != sep) with
  | [] => none
  | _ :: front => some (front.reverse, (back.takeWhile (· != sep)).reverse)

/-- The host without brackets that open at its start or close at its end. -/
def bareHost (cs : List Char) : List Char :=
  ((cs.dropWhile (· == '[')).reverse.dropWhile (· == ']')).reverse

/-- The address that the characters write. -/
def ofList? (cs : List Char) : Option Address := do
  let (front, back) ← splitLast? ':' cs
  let host := bareHost front
  if host.isEmpty then none
  let port ← (Text.readNat (UInt16.size - 1) (String.ofList back)).toOption
  some ⟨String.ofList host, UInt16.ofNat port⟩

/-- Reads an address; an error quotes the text. -/
def parse (s : String) : Except CacheError Address :=
  match ofList? s.toList with
  | some a => .ok a
  | none => .error (.configuration (.badAddress s))

/-! ## Lists -/

/-- A character between the addresses of a list. -/
def isSeparator (c : Char) : Bool := isBlank c || c == ','

/-- The addresses between blanks and commas; the first bad one is the error. -/
def parseList (s : String) : Except CacheError (List Address) :=
  ((splitList isSeparator s.toList).filter (!·.isEmpty)).mapM fun item => parse (String.ofList item)

/-! ## The node list of a configuration -/

def hostKey : String := "cache.remote.host"

/-- The list behind `front`, if the list begins with it. -/
def stripFront? (front cs : List Char) : Option (List Char) :=
  if front.isPrefixOf cs then some (cs.drop front.length) else none

/-- The list before `back`, if the list ends with it. -/
def stripBack? (back cs : List Char) : Option (List Char) :=
  (stripFront? back.reverse cs.reverse).map List.reverse

/-- The number of a key `cache.remote.<N>.host`. -/
def hostNumber? (key : String) : Option Nat := do
  let rest ← stripFront? "cache.remote.".toList key.toList
  let number ← stripBack? ".host".toList rest
  (Text.readNat (UInt32.size - 1) (String.ofList number)).toOption

/-- The keys of numbered hosts in ascending order of their numbers; keys of one
number stay in the order of their texts. -/
def numberedHosts (p : Properties) : List String :=
  let found := p.keys.filterMap fun key => (hostNumber? key).map fun n => (n, key)
  (found.mergeSort fun a b => a.1 ≤ b.1).map (·.2)

/-- The addresses under some keys, joined. -/
def gather (p : Properties) (keys : List String) : Except CacheError (List Address) := do
  let lists ← keys.mapM fun key =>
    match p.get? key with
    | some value => parseList value
    | none => .ok []
  pure lists.flatten

/-- The nodes of a configuration, of which there must be one. The key without
a number wins over all that have one. -/
def ofProperties (p : Properties) : Except CacheError (List Address) := do
  let nodes ←
    match p.get? hostKey with
    | some value => parseList value
    | none => gather p (numberedHosts p)
  if nodes.isEmpty then .error (.configuration .missingHosts) else .ok nodes

/-- Whether any key names hosts. -/
def hasHosts (p : Properties) : Bool :=
  p.contains hostKey || p.keys.any fun key => (hostNumber? key).isSome

end Address

end CacheService
