import CacheService.Notice
import CacheService.Remote.Key
import CacheService.Remote.Node
import CacheService.Stats

/-!
# CacheService.Remote.Cluster

The remote client: several nodes, each with its share of the keys (`Cluster.nodeOf`),
and the client's own books. A call either returns at once or waits for answers of the
nodes; what it waits for is a value (`Waiting`), so that calls and workers can be
interleaved at will. Failures of reads become misses and failures of writes dropped
writes: only a stopped client or node is an error of the call.

A call goes by turns (`Turn`): `Cluster.start` is the first, and `Cluster.resume` each
of the others, once an answer has come or the time is up. An answer reaches its call by
a ticket, under which `Cluster.absorb` keeps it in `arrived`. Reads of several keys are
all queued before the first answer is awaited; a clear and the wait for writes go from
node to node.
-/

namespace CacheService.Remote

/-- Values by key. -/
abbrev Found := Std.TreeMap String ByteArray

/-- The client with its books. -/
structure Cluster where
  timeout : Span
  nodes : List Node
  stopped : Bool := false
  hits : Nat := 0
  misses : Nat := 0
  timeouts : Nat := 0
  errors : Nat := 0
  /-- Writes lost before they were queued. -/
  droppedWrites : Nat := 0
  nextTicket : Ticket := 0
  /-- Answers that have arrived and have not been read. -/
  arrived : List (Ticket × Finding) := []

namespace Cluster

/-- A client that has not connected anywhere; it needs a node. -/
def create (settings : RemoteSettings) : Except CacheError Cluster :=
  if settings.nodes.isEmpty then .error (.configuration .missingHosts)
  else
    .ok { timeout := settings.timeout, nodes := settings.nodes.map (Node.create settings) }

/-! ## Views -/

/-- The position of the node that a key belongs to. -/
def nodeOf (c : Cluster) (key : String) : Nat := nodeIndex key.toUTF8.toList c.nodes.length

/-- The addresses of all nodes. -/
def description (c : Cluster) : String := ", ".intercalate (c.nodes.map (·.address.text))

/-- The state of all nodes. -/
def status (c : Cluster) : String := "; ".intercalate (c.nodes.map Node.status)

/-- The writes that are queued and have not run. -/
def pendingWrites (c : Cluster) : Nat := c.nodes.foldl (fun sum n => sum + n.pendingWrites) 0

def stats (c : Cluster) : Stats :=
  { Stats.zero "remote" with
    hits := c.hits
    misses := c.misses
    timeouts := c.timeouts
    errors := c.errors
    droppedWrites := c.droppedWrites + c.nodes.foldl (fun sum n => sum + n.droppedWrites) 0 }

/-- Whether the process has gone down with one of the nodes. -/
def hasCrashed (c : Cluster) : Bool := c.nodes.any Node.hasCrashed

/-- The state of one node, or nothing if there is no such node. -/
def statusOf (c : Cluster) (i : Nat) : String := (c.nodes[i]?.map Node.status).getD ""

/-! ## Calls -/

/-- What a caller asks of the client. -/
inductive Call
  | get (key : String)
  | getMany (keys : List String)
  | set (key : String) (value : ByteArray) (ttl : UInt32)
  | delete (key : String)
  | clear
  | stop
  /-- Waits until every write queued so far has run. -/
  | awaitWrites

/-- What a call returns. -/
inductive Result
  | done
  | value (value : Option ByteArray)
  | found (values : Found)
  | error (error : CacheError)

/-- A queued read of a call that reads several keys, with its ticket, or the
error that kept it from being queued. -/
structure PendingRead where
  key : String
  node : Nat
  answer : Except CacheError Ticket

/-- What a call waits for. -/
inductive Waiting
  | get (key : String) (node : Nat) (ticket : Ticket)
  /-- The first read has a ticket, and its answer is not there. -/
  | getMany (ticket : Ticket) (reads : List PendingRead) (found : Found)
  | delete (key : String) (node : Nat) (ticket : Ticket)
  /-- The flush of one node; the others follow in order. -/
  | clear (node : Nat) (ticket : Ticket) (rest : List Nat)
  | awaitWrites (node : Nat) (ticket : Ticket) (rest : List Nat)
  /-- The end of a node's worker. -/
  | stop (node : Nat) (rest : List Nat)

/-- A client after a step of a call, which has returned or waits. -/
structure Turn where
  cluster : Cluster
  next : Result ⊕ Waiting
  notices : List Notice := []

namespace Turn

def returned (c : Cluster) (r : Result) (notices : List Notice) : Turn := ⟨c, .inl r, notices⟩

def waits (c : Cluster) (w : Waiting) (notices : List Notice) : Turn := ⟨c, .inr w, notices⟩

end Turn

/-- The tickets whose answers a call still reads. -/
def Waiting.tickets : Waiting → List Ticket
  | .get _ _ ticket | .delete _ _ ticket | .clear _ ticket _
  | .awaitWrites _ ticket _ => [ticket]
  | .getMany _ reads _ => reads.filterMap (·.answer.toOption)
  | .stop _ _ => []

/-! ## Parts of calls -/

/-- Queues a command that will be answered under the ticket given to it, which is
`nextTicket`. A ticket is used up only if the node takes the command. -/
def submit (c : Cluster) (i : Nat) (command : Ticket → Command) :
    Cluster × Except CacheError Ticket :=
  let ticket := c.nextTicket
  match c.nodes[i]? with
  | none => (c, .error (.internal "no such node"))
  | some n =>
    match n.submit (command ticket) with
    | .error e => (c, .error e)
    | .ok n => ({ c with nodes := c.nodes.set i n, nextTicket := ticket + 1 }, .ok ticket)

/-- The answer that has arrived under a ticket. -/
def answer? (c : Cluster) (ticket : Ticket) : Option Finding := c.arrived.lookup ticket

/-- What a node's answer comes to for its caller: the answer if it is there (`answer?`),
else an error if the worker is gone or the time is up. -/
def outcome? (c : Cluster) (late : Bool) (i : Nat) (ticket : Ticket) : Option Finding :=
  match c.answer? ticket, c.nodes[i]? with
  | some finding, _ => some finding
  | none, none => some (.error (.internal "no such node"))
  | none, some n =>
    if n.isGone then some (.error (.remote (.unanswered n.address)))
    else if late then some (.error n.timeoutError)
    else none

/-- Books and reports the outcome of one read: a failure is a miss. -/
def settleRead (c : Cluster) (key : String) (finding : Finding) :
    Option ByteArray × Cluster × List Notice :=
  let report (cause : String) : String :=
    "key=" ++ key ++ ", cause=" ++ cause ++ ", connection=" ++ c.description
      ++ ", connectionStatus=" ++ c.status
  match finding with
  | .ok (some value) => (some value, { c with hits := c.hits + 1 }, [])
  | .ok none => (none, { c with misses := c.misses + 1 }, [])
  | .error e =>
    if e.isTimeout then
      (none, { c with timeouts := c.timeouts + 1, misses := c.misses + 1 },
        [.warn ("Cache miss due to timeout. " ++ report e.cause)])
    else
      (none, { c with errors := c.errors + 1, misses := c.misses + 1 },
        [.error ("Cache miss due to error. " ++ report e.message)])

/-- Books and reports a failure of a delete or a flush. -/
def settleFailure (c : Cluster) (what target : String) (e : CacheError) : Cluster × List Notice :=
  let report : String := ". " ++ target ++ ", cause=" ++ e.message
  if e.isTimeout then
    ({ c with timeouts := c.timeouts + 1 }, [.warn ("Cache " ++ what ++ " timed out" ++ report)])
  else ({ c with errors := c.errors + 1 }, [.error ("Cache " ++ what ++ " failed" ++ report)])

/-- A read of a key that no server takes: a miss. -/
def missInvalid (c : Cluster) (key : String) (e : CacheError) : Cluster × List Notice :=
  ({ c with misses := c.misses + 1 },
    [.warn ("Cache miss due to invalid key. key=" ++ key ++ ", cause=" ++ e.message)])

/-! ## Reads -/

/-- Returns the outcome of a single read. -/
def finishGet (c : Cluster) (key : String) (finding : Finding) : Turn :=
  let (value, c, notices) := c.settleRead key finding
  .returned c (.value value) notices

/-- Starts a single read, which waits behind what its node has queued. -/
def startGet (c : Cluster) (key : String) : Turn :=
  match validateKey key with
  | .error e =>
    let (c, notices) := c.missInvalid key e
    .returned c (.value none) notices
  | .ok () =>
    let i := c.nodeOf key
    match c.submit i (.get key) with
    | (c, .ok ticket) => .waits c (.get key i ticket) []
    | (c, .error e) =>
        if e.isIllegalState then .returned c (.error e) [] else c.finishGet key (.error e)

/-- Queues the reads of several keys; keys that no server takes are misses. -/
def submitReads (c : Cluster) : List String → Cluster × List PendingRead × List Notice
  | [] => (c, [], [])
  | key :: keys =>
    match validateKey key with
    | .error e =>
      let (c, notices) := c.missInvalid key e
      let (c, reads, more) := c.submitReads keys
      (c, reads, notices ++ more)
    | .ok () =>
      let i := c.nodeOf key
      let (c, answer) := c.submit i (.get key)
      let (c, reads, notices) := c.submitReads keys
      (c, ⟨key, i, answer⟩ :: reads, notices)

/-- Adds what a read found. -/
def addFound (found : Found) (key : String) : Option ByteArray → Found
  | none => found
  | some value => found.insert key value

/-- Settles queued reads in order, as far as their answers are there (`settleRead`).
Once the time is up, an answer that is not there is a timeout. -/
def settleReads (c : Cluster) (late : Bool) (found : Found) : List PendingRead → Turn
  | [] => .returned c (.found found) []
  | read :: reads =>
    let settle (finding : Finding) : Turn :=
      let (value, c, notices) := c.settleRead read.key finding
      let turn := c.settleReads late (addFound found read.key value) reads
      { turn with notices := notices ++ turn.notices }
    match read.answer with
    | .error e => if e.isIllegalState then .returned c (.error e) [] else settle (.error e)
    | .ok ticket =>
      match c.outcome? late read.node ticket with
      | some finding => settle finding
      | none => .waits c (.getMany ticket (read :: reads) found) []

/-- Starts the reads of several keys: all are queued before the first answer is
awaited, and all share one time limit. -/
def startGetMany (c : Cluster) (keys : List String) : Turn :=
  let (c, reads, notices) := c.submitReads keys
  let turn := c.settleReads false {} reads
  { turn with notices := notices ++ turn.notices }

/-! ## Writes -/

/-- Queues a write and returns. A write that cannot be queued is dropped. -/
def startSet (c : Cluster) (unixSeconds : Int) (key : String) (value : ByteArray) (ttl : UInt32) :
    Turn :=
  match validateKey key with
  | .error e =>
    .returned { c with droppedWrites := c.droppedWrites + 1 } .done
      [.warn ("Cache write dropped due to invalid key. key=" ++ key ++ ", cause=" ++ e.message)]
  | .ok () =>
    let i := c.nodeOf key
    match c.nodes[i]? with
    | none => .returned c (.error (.internal "no such node")) []
    | some n =>
      match n.submitWrite key value (wireExpiration ttl unixSeconds) with
      | .ok n => .returned { c with nodes := c.nodes.set i n } .done []
      | .error e =>
        if e.isIllegalState then .returned c (.error e) []
        else
          .returned { c with droppedWrites := c.droppedWrites + 1 } .done
            [.warn ("Cache write dropped. key=" ++ key ++ ", cause=" ++ e.message
              ++ ", connectionStatus=" ++ n.status)]

/-- Returns from a delete, whose failure is only booked. -/
def finishDelete (c : Cluster) (key : String) (i : Nat) : Finding → Turn
  | .ok _ => .returned c .done []
  | .error e =>
    let target : String := "key=" ++ key ++ ", connectionStatus=" ++ c.statusOf i
    let (c, notices) := c.settleFailure "delete" target e
    .returned c .done notices

/-- Starts a delete. A key that no server takes is not stored anyway. -/
def startDelete (c : Cluster) (key : String) : Turn :=
  match validateKey key with
  | .error _ => .returned c .done []
  | .ok () =>
    let i := c.nodeOf key
    match c.submit i (.delete key) with
    | (c, .ok ticket) => .waits c (.delete key i ticket) []
    | (c, .error e) =>
      if e.isIllegalState then .returned c (.error e) [] else c.finishDelete key i (.error e)

/-- Books the outcome of a flush. -/
def settleFlush (c : Cluster) (i : Nat) : Finding → Cluster × List Notice
  | .ok _ => (c, [])
  | .error e =>
    c.settleFailure "flush" ("node=" ++ (c.nodes[i]?.map (·.address.text)).getD "") e

/-- Flushes nodes in order, up to the first that has to be waited for. The failure of
one does not keep the others from their flush (`settleFlush`); a node that has been
closed does. -/
def flushFrom (c : Cluster) : List Nat → Turn
  | [] => .returned c .done []
  | i :: rest =>
    match c.submit i .flush with
    | (c, .ok ticket) => .waits c (.clear i ticket rest) []
    | (c, .error e) =>
      if e.isIllegalState then .returned c (.error e) []
      else
        let (c, notices) := c.settleFlush i (.error e)
        let turn := c.flushFrom rest
        { turn with notices := notices ++ turn.notices }

/-! ## Waiting for writes, and stopping -/

/-- Puts a `barrier` behind what nodes have queued, up to the first that has to be
waited for. Nodes that are not started, closed or full are passed over. -/
def awaitFrom (c : Cluster) : List Nat → Turn
  | [] => .returned c .done []
  | i :: rest =>
    if (c.nodes[i]?.map fun n => n.isStarted && !n.closed).getD false then
      match c.submit i .barrier with
      | (c, .ok ticket) => .waits c (.awaitWrites i ticket rest) []
      | (c, .error _) => c.awaitFrom rest
    else c.awaitFrom rest

/-- The positions of all nodes. -/
def positions (c : Cluster) : List Nat := List.range c.nodes.length

/-- Waits for the ends of workers in order, up to the first that goes on. -/
def awaitEnds (c : Cluster) : List Nat → Turn
  | [] => .returned c .done []
  | i :: rest =>
    if (c.nodes[i]?.map Node.isGone).getD true then c.awaitEnds rest
    else .waits c (.stop i rest) []

/-- Stops the client: closes every node and waits for the workers that were not waited
for before (`awaitEnds`). A second stop is refused. -/
def startStop (c : Cluster) : Turn :=
  if c.stopped then .returned c (.error (.illegalState .remoteStoppedTwice)) []
  else
    let openNodes := c.positions.filter fun i =>
      (c.nodes[i]?.map fun n => n.isStarted && !n.closed).getD false
    { c with stopped := true, nodes := c.nodes.map Node.close }.awaitEnds openNodes

/-! ## Steps of a call -/

/-- Starts a call at a Unix second on a client that is not stopped. -/
def startRunning (c : Cluster) (unixSeconds : Int) : Call → Turn
  | .get key => c.startGet key
  | .getMany keys => c.startGetMany keys
  | .set key value ttl => c.startSet unixSeconds key value ttl
  | .delete key => c.startDelete key
  | .clear => c.flushFrom c.positions
  | .stop => c.startStop
  | .awaitWrites => c.awaitFrom c.positions

/-- Starts a call at a Unix second. A stopped client refuses it; waiting for
writes is no operation of the client and finds nothing to wait for. -/
def start (c : Cluster) (unixSeconds : Int) (call : Call) : Turn :=
  match call with
  | .stop | .awaitWrites => c.startRunning unixSeconds call
  | call =>
    if c.stopped then .returned c (.error (.illegalState .remoteStopped)) []
    else c.startRunning unixSeconds call

/-- Drops the answers that have arrived; no call waits for them any more. -/
def forgetAnswers (c : Cluster) : Cluster := { c with arrived := [] }

/-- Goes on with a call whose answer is there, or whose time is up. A call that
finds neither keeps waiting. -/
def resume (c : Cluster) (late : Bool) (w : Waiting) : Turn :=
  match w with
  | .get key i ticket =>
    match c.outcome? late i ticket with
    | none => .waits c w []
    | some finding => c.finishGet key finding
  | .getMany _ reads found => c.settleReads late found reads
  | .delete key i ticket =>
    match c.outcome? late i ticket with
    | none => .waits c w []
    | some finding => c.finishDelete key i finding
  | .clear i ticket rest =>
    match c.outcome? late i ticket with
    | none => .waits c w []
    | some finding =>
      let (c, notices) := c.settleFlush i finding
      let turn := c.flushFrom rest
      { turn with notices := notices ++ turn.notices }
  | .awaitWrites i ticket rest =>
    match c.outcome? false i ticket with
    | none => .waits c w []
    | some _ => c.awaitFrom rest
  | .stop i rest =>
    if (c.nodes[i]?.map Node.isGone).getD true then c.awaitEnds rest
    else if late then
      let turn := { c with nodes := c.nodes.modify i Node.abort }.awaitEnds rest
      { turn with
        notices := .warn "Remote cache stopped with writes still pending" :: turn.notices }
    else .waits c w []

/-! ## Steps of workers -/

/-- Takes in what a worker of node `i` has brought about: answers that someone
waits for are kept, and lost writes are reported. -/
def absorb (c : Cluster) (i : Nat) (wanted : Ticket → Bool) : List Event → Cluster × List Notice
  | [] => (c, [])
  | .answered ticket finding :: events =>
    let c := if wanted ticket then { c with arrived := (ticket, finding) :: c.arrived } else c
    c.absorb i wanted events
  | .stored _ :: events => c.absorb i wanted events
  | .dropped key e :: events =>
    let (c, notices) := c.absorb i wanted events
    (c, .error ("Cache write dropped. key=" ++ key ++ ", cause=" ++ e.message ++ ", node="
      ++ (c.nodes[i]?.map (·.address.text)).getD "") :: notices)

/-- Puts a node back after its worker has made progress. -/
def replace (c : Cluster) (i : Nat) (wanted : Ticket → Bool) (n : Node) (events : List Event) :
    Cluster × List Notice :=
  { c with nodes := c.nodes.set i n }.absorb i wanted events

end Cluster

end CacheService.Remote
