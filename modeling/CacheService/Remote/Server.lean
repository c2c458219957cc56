import CacheService.Remote.Network
import Std.Data.TreeMap

/-!
# CacheService.Remote.Server

Memcached servers as a network (`ServerFarm`): each keeps its items, may ask for a login
on every new connection, and may be told to misbehave (`Mode`) for some commands or from
now on. What has come over the wire is kept in `received` for whoever wants to look.

A server with a login takes nothing else on a connection before it. One without stores
the login of a client under its key, like any other write.
-/

namespace CacheService.Remote

/-! ## Reading answers from lines -/

/-- Splits a text at its line ends. -/
def answerLines (s : String) : List String := s.splitOn "\r\n"

/-- The values of `VALUE` blocks up to `END`, in up to so many blocks. -/
def valueBlocks : (lines : List String) → Option (List ByteArray)
  | "END" :: _ => some []
  | head :: data :: rest =>
    if head.startsWith "VALUE " then (valueBlocks rest).map (data.toUTF8 :: ·) else none
  | _ => none

/-- The answer that a server writes as a text. -/
def Answer.ofText (text : String) : Answer :=
  match answerLines text with
  | "STORED" :: _ => .status .stored
  | "NOT_STORED" :: _ => .status .notStored
  | "EXISTS" :: _ => .status .exists
  | "NOT_FOUND" :: _ => .status .notFound
  | "DELETED" :: _ => .status .deleted
  | "TOUCHED" :: _ => .status .touched
  | "OK" :: _ => .ok
  | "ERROR" :: _ => .error
  | lines =>
    match valueBlocks lines with
    | some data => .values data
    | none =>
      let line := lines.headD ""
      let rest (word : String) : String := String.ofList (line.toList.drop word.length)
      if line.startsWith "CLIENT_ERROR " then .clientError (rest "CLIENT_ERROR ")
      else if line.startsWith "SERVER_ERROR " then .serverError (rest "SERVER_ERROR ")
      else if !line.isEmpty && line.toList.all Char.isDigit then .number line
      else .other line

/-! ## One server -/

/-- How a server treats the next command. -/
inductive Mode
  | normal
  /-- Never answers. -/
  | stall
  /-- Closes the connection in place of an answer. -/
  | hangUp
  /-- Answers with a text of its own. -/
  | fixed (answer : Answer)

/-- A server with its items. -/
structure Server where
  address : Address
  /-- Takes no connections. -/
  down : Bool := false
  /-- The data of the first write that a connection has to make. -/
  login : Option String := none
  /-- Value and expiration by key. -/
  items : Std.TreeMap String (ByteArray × Int) := {}
  mode : Mode := .normal
  /-- The commands for which the mode still holds; nothing means all. -/
  left : Option Nat := none
  /-- Connections taken so far. -/
  connections : Nat := 0
  /-- Command lines received, the last first. -/
  received : List String := []

namespace Server

/-- The mode for one command, and the server after it. -/
def takeMode (s : Server) : Mode × Server :=
  match s.left with
  | none => (s.mode, s)
  | some 0 => (.normal, { s with mode := .normal, left := none })
  | some 1 => (s.mode, { s with mode := .normal, left := none })
  | some (n + 2) => (s.mode, { s with left := some (n + 1) })

/-- Runs a command on the items. -/
def execute (s : Server) : Request → Answer × Server
  | .get key =>
    match s.items[key]? with
    | some (value, _) => (.values [value], s)
    | none => (.values [], s)
  | .set key value expiration =>
    (.status .stored, { s with items := s.items.insert key (value, expiration) })
  | .delete key =>
    if s.items.contains key then (.status .deleted, { s with items := s.items.erase key })
    else (.status .notFound, s)
  | .flushAll => (.ok, { s with items := {} })

/-- Whether a request is the login that the server asks for. -/
def isLogin (s : Server) : Request → Bool
  | .set _ value _ => s.login.any (·.toUTF8 = value)
  | _ => false

end Server

/-! ## A network of servers -/

/-- The connection of a node. -/
structure Link where
  /-- The position of the server. -/
  server : Nat
  loggedIn : Bool
  /-- The server has closed it. -/
  hungUp : Bool := false

/-- Servers, and the connections of the nodes by their positions. -/
structure ServerFarm where
  servers : List Server
  links : Std.TreeMap Nat Link := {}

namespace ServerFarm

/-- Takes a connection for a node. -/
def dial (f : ServerFarm) (node : Nat) (a : Address) : Dial × ServerFarm :=
  match f.servers.findIdx? (fun s => s.address = a && !s.down) with
  | none => (.refused "connect", f)
  | some i =>
    let servers := f.servers.modify i fun s => { s with connections := s.connections + 1 }
    let loggedIn := (f.servers[i]?.map fun s => s.login.isNone).getD true
    (.accepted, { f with servers, links := f.links.insert node ⟨i, loggedIn, false⟩ })

/-- Answers a request on the connection of a node, by `Server.execute` where the server
treats the command as normal and the connection is logged in. -/
def exchange (f : ServerFarm) (node : Nat) (r : Request) : Answer × ServerFarm :=
  match f.links[node]? with
  | none => (.lost, f)
  | some link =>
    match f.servers[link.server]? with
    | none => (.lost, f)
    | some s =>
      if link.hungUp then (.lost, f)
      else
        let (mode, s) := { s with received := r.line :: s.received }.takeMode
        let put (s : Server) : ServerFarm := { f with servers := f.servers.set link.server s }
        match mode with
        | .stall => (.silence, put s)
        | .hangUp =>
          (.lost, { put s with links := f.links.insert node { link with hungUp := true } })
        | .fixed answer => (answer, put s)
        | .normal =>
          if link.loggedIn then
            let (answer, s) := s.execute r
            (answer, put s)
          else if s.isLogin r then
            (.status .stored,
              { put s with links := f.links.insert node { link with loggedIn := true } })
          else (.clientError "unauthenticated", put s)

instance : Network ServerFarm where
  dial := dial
  exchange := exchange

end ServerFarm

end CacheService.Remote
