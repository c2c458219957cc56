import CacheService.Remote.Network
import CacheService.Settings

/-!
# CacheService.Remote.Node

One node of the remote client: a queue of commands and the worker that runs them one
after another on a single connection. The worker opens a connection when it needs one,
logs in first if there is a login, and gives a connection up whenever an exchange on it
fails (`Node.fail`), so that a late answer is never read as the answer to another
command. A delete is the exception: its answer is ignored as long as one comes
(`Node.exchanged`).

A `Worker` is a state and not a process: what it waits for is in the state, and one
function takes in each answer (`takeNext`, `dialed`, `loggedIn`, `exchanged`) or the end
of its time (`expire`). Calls and workers can be interleaved at will that way. The
last section puts the functions together for a network that answers at once
(`Node.run`).

The node's own books are `requests`, `failures`, `droppedWrites` and `pendingWrites`. A
write is pending from before it is queued until it is acknowledged or lost.
-/

namespace CacheService.Remote

/-! ## Commands -/

/-- Names one awaited answer. -/
abbrev Ticket := Nat

/-- What the worker is asked to do. -/
inductive Command
  | get (key : String) (ticket : Ticket)
  | set (key : String) (value : ByteArray) (expiration : Int)
  | delete (key : String) (ticket : Ticket)
  | flush (ticket : Ticket)
  /-- Answered as soon as every command before it has run. -/
  | barrier (ticket : Ticket)

/-- What a command sends to the server; a barrier sends nothing. -/
def Command.request? : Command → Option Request
  | .get key _ => some (.get key)
  | .set key value expiration => some (.set key value expiration)
  | .delete key _ => some (.delete key)
  | .flush _ => some .flushAll
  | .barrier _ => none

/-- The ticket of a command whose answer someone may await. -/
def Command.ticket? : Command → Option Ticket
  | .get _ ticket | .delete _ ticket | .flush ticket | .barrier ticket => some ticket
  | .set .. => none

/-- A write does not wait for its answer. -/
def Command.isWrite : Command → Bool
  | .set .. => true
  | _ => false

/-- What a command comes to: an error, or the value that a read found. -/
abbrev Finding := Except CacheError (Option ByteArray)

/-- What others see of the worker's progress. -/
inductive Event
  /-- An answer for whoever holds the ticket. -/
  | answered (ticket : Ticket) (finding : Finding)
  /-- A write that the server has acknowledged. -/
  | stored (key : String)
  /-- A write that is lost. -/
  | dropped (key : String) (error : CacheError)

/-! ## Nodes -/

/-- What the worker is doing. -/
inductive Worker
  /-- Not started: nothing has been queued yet. -/
  | absent
  | resting
  /-- Waiting for a connection, to run a command. -/
  | dialing (command : Command)
  /-- Waiting for the answer to the login. -/
  | loggingIn (command : Command)
  /-- Waiting for the answer to a command. -/
  | exchanging (command : Command)
  /-- Ended, or given up. -/
  | gone

/-- A node with its queue and its books. -/
structure Node where
  address : Address
  credentials : Option Credentials
  timeout : Span
  /-- The commands that may wait. -/
  capacity : Nat
  closed : Bool := false
  worker : Worker := .absent
  /-- Whether the worker holds a connection for its next command. While it logs in
  on a new one, it holds none yet. -/
  linked : Bool := false
  /-- What others are told of the connection: whether there is one. -/
  connected : Bool := false
  queue : List Command := []
  /-- Commands taken from the queue. -/
  requests : Nat := 0
  failures : Nat := 0
  droppedWrites : Nat := 0
  /-- Writes that were queued and have not run. -/
  pendingWrites : Nat := 0
  lastError : Option String := none

namespace Node

/-- A node whose worker is not started. At least one command may wait. -/
def create (settings : RemoteSettings) (address : Address) : Node where
  address := address
  credentials := settings.credentials
  timeout := settings.timeout
  capacity := max 1 settings.queueCapacity

/-- The state in one line. -/
def status (n : Node) : String :=
  n.address.text ++ " connected=" ++ (if n.connected then "true" else "false")
    ++ " queued_writes=" ++ toString n.pendingWrites
    ++ " requests=" ++ toString n.requests
    ++ " failures=" ++ toString n.failures
    ++ " last_error=" ++ n.lastError.getD "none"

def isStarted (n : Node) : Bool :=
  match n.worker with
  | .absent => false
  | _ => true

def isGone (n : Node) : Bool :=
  match n.worker with
  | .gone => true
  | _ => false

/-- The longest queue that can be made: three bits of a word of 64 are kept for
other things than its places. -/
def queueLimit : Nat := UInt64.size / 8 - 1

/-- Whether the process has gone down with this node: the queue is made as the
worker is started, and one beyond the limit cannot be. -/
def hasCrashed (n : Node) : Bool := n.isStarted && queueLimit < n.capacity

/-! ## Queueing -/

/-- Queues a command, starting the worker if it is not. A closed node takes nothing
more, and neither does one whose queue is as long as `capacity`. -/
def submit (n : Node) (c : Command) : Except CacheError Node :=
  if n.closed then .error (.illegalState (.nodeStopped n.address))
  else
    match n.worker with
    | .gone => .error (.remote (.workerGone n.address))
    | .absent => .ok { n with worker := .resting, queue := [c] }
    | _ =>
      if n.capacity ≤ n.queue.length then .error (.remote (.queueFull n.address n.capacity))
      else .ok { n with queue := n.queue ++ [c] }

/-- Queues a write. It counts in `pendingWrites` from before it is queued, and no more
if it cannot be. -/
def submitWrite (n : Node) (key : String) (value : ByteArray) (expiration : Int) :
    Except CacheError Node :=
  match { n with pendingWrites := n.pendingWrites + 1 }.submit (.set key value expiration) with
  | .ok n => .ok n
  | .error e => .error e

/-- Stops taking commands; what is queued still runs. -/
def close (n : Node) : Node := { n with closed := true }

/-- Gives the worker up as it is, with its connection and whatever it was doing.
Nobody is told. -/
def abort (n : Node) : Node := { n with worker := .gone, linked := false, queue := [] }

/-! ## Running commands -/

/-- Books a failure, whose text is the `lastError` from now on. -/
def recordFailure (n : Node) (e : CacheError) : Node :=
  { n with failures := n.failures + 1, lastError := some e.message }

/-- The error of an answer that did not come in time. -/
def timeoutError (n : Node) : CacheError := .timeout (.noResponse n.address n.timeout)

/-- The running command is over: a read, delete or flush is answered, a write
is stored or lost. -/
def finish (n : Node) (c : Command) (finding : Finding) : Node × List Event :=
  let n := { n with worker := .resting }
  match c, finding with
  | .set key _ _, .ok _ => ({ n with pendingWrites := n.pendingWrites - 1 }, [.stored key])
  | .set key _ _, .error e =>
    ({ n with pendingWrites := n.pendingWrites - 1, droppedWrites := n.droppedWrites + 1 },
      [.dropped key e])
  | .get _ ticket, finding | .delete _ ticket, finding | .flush ticket, finding
  | .barrier ticket, finding => (n, [.answered ticket finding])

/-- Drops the connection, if the worker holds one. What others are told (`connected`)
changes only then. -/
def disconnect (n : Node) : Node :=
  { n with linked := false, connected := n.connected && !n.linked }

/-- The running command fails, and the connection with it. Nothing else in a node gives
a connection up, `abort` and `retire` apart. -/
def fail (n : Node) (c : Command) (e : CacheError) : Node × List Event :=
  n.disconnect.recordFailure e |>.finish c (.error e)

/-- Takes the next command. A barrier is answered at once, and a read that
nobody waits for is passed over. -/
def takeNext (n : Node) (wanted : Ticket → Bool) : Node × List Event :=
  match n.queue with
  | [] => (n, [])
  | c :: rest =>
    let n := { n with queue := rest, requests := n.requests + 1 }
    let start := { n with worker := if n.linked then .exchanging c else .dialing c }
    match c with
    | .barrier ticket => (n, [.answered ticket (.ok none)])
    | .get _ ticket => if wanted ticket then (start, []) else (n, [])
    | _ => (start, [])

/-- The request that carries a login: a write under the key `auth`. A server that asks
for a login stores nothing on it; any other takes it as the write that it is. -/
def loginRequest (c : Credentials) : Request :=
  .set "auth" (c.user ++ " " ++ c.password).toUTF8 0

/-- The connection stands, and the command goes out on it. -/
def connect (n : Node) (c : Command) : Node :=
  { n with linked := true, connected := true, worker := .exchanging c }

/-- The attempt to connect has ended. -/
def dialed (n : Node) (c : Command) : Dial → Node × List Event
  | .accepted =>
    match n.credentials with
    | none => (n.connect c, [])
    | some _ => ({ n with worker := .loggingIn c }, [])
  | .refused reason => n.fail c (.remote (.unreachable n.address reason))
  | .silence => n.fail c n.timeoutError

/-- The login has been answered. -/
def loggedIn (n : Node) (c : Command) (user : String) : Reply → Node × List Event
  | .done => (n.connect c, [])
  | .timeout => n.fail c n.timeoutError
  | .fault fault => n.fail c (.remote (.loginRefused user n.address fault))
  | .data _ | .absent => n.fail c (.remote (.loginRefused user n.address .shape))

/-- The running command has been answered. A fault ends the connection by `fail`, unless
the command is a delete, which is then taken to be done. -/
def exchanged (n : Node) (c : Command) : Reply → Node × List Event
  | .data value => n.finish c (.ok (some value))
  | .absent | .done => n.finish c (.ok none)
  | .timeout => n.fail c n.timeoutError
  | .fault fault =>
    match c with
    | .delete .. => n.finish c (.ok none)
    | _ => n.fail c (.remote (.exchange fault))

/-- A worker that waits for an answer waits no longer: its command fails with
`timeoutError`. -/
def expire (n : Node) : Node × List Event :=
  match n.worker with
  | .dialing c | .loggingIn c | .exchanging c => n.fail c n.timeoutError
  | .absent | .resting | .gone => (n, [])

/-- The worker of a closed node ends once nothing is left to do, and takes its
connection with it. -/
def retire (n : Node) : Node :=
  match n.worker with
  | .resting => if n.closed ∧ n.queue.isEmpty then { n.disconnect with worker := .gone } else n
  | _ => n

/-! ## On a network -/

section Network

variable {σ : Type} [Network σ]

/-- A worker that is about to send its command sends it. A silent server leaves
it waiting. -/
def runExchange (i : Nat) (n : Node) (net : σ) : Node × List Event × σ :=
  match n.worker with
  | .exchanging c =>
    match c.request? with
    | none =>
      let (n, events) := n.finish c (.ok none)
      (n, events, net)
    | some request =>
      match Network.exchange net i request with
      | (.silence, net) => (n, [], net)
      | (answer, net) =>
        let (n, events) := n.exchanged c (request.read answer)
        (n, events, net)
  | _ => (n, [], net)

/-- A worker that is about to log in does so, and goes on. -/
def runLogin (i : Nat) (n : Node) (net : σ) : Node × List Event × σ :=
  match n.worker, n.credentials with
  | .loggingIn c, some credentials =>
    let request := loginRequest credentials
    match Network.exchange net i request with
    | (.silence, net) => (n, [], net)
    | (answer, net) =>
      let (n, events) := n.loggedIn c credentials.user (request.read answer)
      let (n, more, net) := n.runExchange i net
      (n, events ++ more, net)
  | _, _ => n.runExchange i net

/-- A worker that is about to connect does so, and goes on. -/
def runDial (i : Nat) (n : Node) (net : σ) : Node × List Event × σ :=
  match n.worker with
  | .dialing c =>
    match Network.dial net i n.address with
    | (.silence, net) => (n, [], net)
    | (dial, net) =>
      let (n, events) := n.dialed c dial
      let (n, more, net) := n.runLogin i net
      (n, events ++ more, net)
  | _ => n.runExchange i net

/-- A resting worker runs its next command, up to a silence. -/
def runNext (i : Nat) (wanted : Ticket → Bool) (n : Node) (net : σ) : Node × List Event × σ :=
  match n.worker with
  | .resting =>
    let (n, events) := n.takeNext wanted
    let (n, more, net) := n.runDial i net
    (n, events ++ more, net)
  | _ => (n, [], net)

/-- A resting worker runs up to `rounds` commands, and stops early where a
server is silent. -/
def runQueue (i : Nat) (wanted : Ticket → Bool) : (rounds : Nat) → Node → σ →
    Node × List Event × σ
  | 0, n, net => (n.retire, [], net)
  | rounds + 1, n, net =>
    let (n, events, net) := n.runNext i wanted net
    let (n, more, net) := runQueue i wanted rounds n net
    (n, events ++ more, net)

/-- A resting worker runs all that is queued, unless a server is silent. -/
def run (i : Nat) (wanted : Ticket → Bool) (n : Node) (net : σ) : Node × List Event × σ :=
  runQueue i wanted n.queue.length n net

end Network

end Node

end CacheService.Remote
