import CacheService.Proofs.Remote.Worker

/-!
# CacheService.Proofs.Remote.Wire

What goes over the connections of one node.

* `Connection` — the requests sent on one connection, and how each of them ended; `Wire`
  — the connections that the worker has opened.
* `Recorded` — a node with its `Wire`. A run is any sequence of `Act`s: commands issued
  to the node, steps of its worker, and its end; servers may answer anything at any
  time. `Node.signals` says what goes over the wire in a step of the worker.
* `Node.Succeeds` and `Node.Fails` — how a command ends, said once for all commands: it
  succeeds and leaves the connection alone, or it fails and the connection goes with it.
  For an answer this is `keepsConnection` (`Node.exchanged_cases`).
-/

namespace CacheService.Remote

/-! ## Connections -/

/-- What has gone over one connection. -/
structure Connection where
  /-- The requests that have ended, in order, each with its answer. One that got
  none in time has silence for its answer. -/
  exchanges : List (Request × Answer) := []
  /-- The request that has been sent and has not ended. -/
  outstanding : Option Request := none

namespace Connection

/-- All requests sent on a connection, in order. -/
def sent (k : Connection) : List Request := k.exchanges.map (·.1) ++ k.outstanding.toList

/-- A request is sent, and is outstanding. -/
def send (k : Connection) (request : Request) : Connection := { k with outstanding := some request }

/-- The request that is outstanding ends. -/
def hear (k : Connection) (answer : Answer) : Connection :=
  { exchanges := k.exchanges ++ k.outstanding.toList.map (·, answer) }

/-- What has been `sent` stays so when it ends. -/
@[simp] theorem sent_hear (k : Connection) (answer : Answer) : (k.hear answer).sent = k.sent := by
  cases h : k.outstanding <;> simp [sent, hear, h]

end Connection

/-- The connections that a worker has opened so far; requests go over the `latest`. -/
structure Wire where
  earlier : List Connection := []
  latest : Option Connection := none

/-- What a worker sees of the network, or does on it. -/
inductive Signal
  /-- A connection is accepted. -/
  | opened
  | sent (request : Request)
  /-- The request that was sent last ends. -/
  | ended (answer : Answer)

namespace Wire

/-- All connections, in the order in which they were opened. -/
def connections (w : Wire) : List Connection := w.earlier ++ w.latest.toList

/-- Requests are sent, and end, on the latest connection. -/
def carry (w : Wire) : Signal → Wire
  | .opened => { earlier := w.connections, latest := some {} }
  | .sent request => { w with latest := w.latest.map (·.send request) }
  | .ended answer => { w with latest := w.latest.map (·.hear answer) }

end Wire

/-! ## Exchanges -/

/-- Whether an answer is the regular one of a request. -/
def Request.isRegular : Request → Answer → Bool
  | .get _, .values [] | .get _, .values [_] | .get _, .status .notFound => true
  | .set .., .status .stored => true
  | .delete _, .status .deleted | .delete _, .status .notFound => true
  | .flushAll, .ok => true
  | _, _ => false

/-- Whether a worker keeps its connection after an exchange: for a delete any answer
will do, and for other requests only the regular one (`Request.isRegular`). -/
def keepsConnection : Request × Answer → Bool
  | (.delete _, .silence) => false
  | (.delete _, _) => true
  | (request, answer) => request.isRegular answer

/-- Whether a request is content with what the client has made of its answer. -/
def Request.accepts : Request → Reply → Bool
  | .delete _, .fault _ => true
  | _, .fault _ | _, .timeout => false
  | _, .data _ | _, .absent | _, .done => true

/-- What the client makes of an answer decides as `keepsConnection` does. -/
theorem accepts_read (request : Request) (answer : Answer) :
    request.accepts (request.read answer) = keepsConnection (request, answer) := by
  cases request <;> cases answer with
  | values data =>
      match data with
      | [] | [_] | _ :: _ :: _ => rfl
  | status s => cases s <;> rfl
  | _ => rfl

/-- What others see of a command that comes to a finding. -/
def Command.outcome : Command → Finding → List Event
  | .set key _ _, .ok _ => [.stored key]
  | .set key _ _, .error e => [.dropped key e]
  | .get _ ticket, finding | .delete _ ticket, finding | .flush ticket, finding
  | .barrier ticket, finding => [.answered ticket finding]

namespace Node

/-- The request that the worker has sent and waits for. -/
def awaited (n : Node) : Option Request :=
  match n.worker with
  | .loggingIn _ => n.credentials.map loginRequest
  | .exchanging c => c.request?
  | .absent | .resting | .dialing _ | .gone => none

/-- The wire once the node has sent what is `awaited`. -/
def awaiting (n : Node) (w : Wire) : Wire := (n.awaited.map Signal.sent).toList.foldl Wire.carry w

/-- What goes over the wire in a step of the worker, which makes it another node.
A request is sent when the worker comes to wait for its answer. -/
def signals (n n' : Node) (step : WorkerStep) : List Signal :=
  let sends := (n'.awaited.map Signal.sent).toList
  match step, n.worker with
  | .take, .resting => sends
  | .dial .accepted, .dialing _ => .opened :: sends
  | .login answer, .loggingIn _ => .ended answer :: sends
  | .exchange answer, .exchanging _ => [.ended answer]
  | .expire, .loggingIn _ | .expire, .exchanging _ => [.ended .silence]
  | _, _ => []

/-- The node after a command has been issued to it, whether it takes it or not. -/
def issue (n : Node) : Command → Node
  | .set key value expiration => (n.submitWrite key value expiration).toOption.getD n
  | c => (n.submit c).toOption.getD n

end Node

/-! ## Runs -/

/-- A node with what has gone over its `Wire`. -/
structure Recorded where
  node : Node
  wire : Wire := {}

/-- What can happen to a node: a command, a step of its worker, or its end. -/
inductive Act
  | issue (command : Command)
  | work (wanted : Ticket → Bool) (step : WorkerStep)
  | close
  | abort

namespace Recorded

/-- A step of the worker. -/
def work (r : Recorded) (wanted : Ticket → Bool) (step : WorkerStep) : Recorded where
  node := (r.node.advance wanted step).1
  wire := (r.node.signals (r.node.advance wanted step).1 step).foldl Wire.carry r.wire

/-- The node after an act. What is no step of its worker leaves the wire. -/
def act (r : Recorded) : Act → Recorded
  | .issue c => { r with node := r.node.issue c }
  | .work wanted step => r.work wanted step
  | .close => { r with node := r.node.close }
  | .abort => { r with node := r.node.abort }

/-- The node after some acts, with all that has gone over its wire. -/
def after (r : Recorded) (acts : List Act) : Recorded := acts.foldl act r

@[simp] theorem after_nil (r : Recorded) : r.after [] = r := rfl

@[simp] theorem after_cons (r : Recorded) (a : Act) (acts : List Act) :
    r.after (a :: acts) = (r.act a).after acts := rfl

end Recorded

/-! ## How commands end -/

namespace Node

variable {n : Node} {c : Command}

/-- What `finish` makes of a node: the worker rests, and a write is taken off the books. -/
theorem finish_eq (n : Node) (c : Command) (finding : Finding) :
    n.finish c finding = ({ n with
      worker := .resting
      pendingWrites := if c.isWrite then n.pendingWrites - 1 else n.pendingWrites
      droppedWrites :=
        if c.isWrite && !finding.toBool then n.droppedWrites + 1 else n.droppedWrites },
      c.outcome finding) := by
  cases c <;> cases finding <;> rfl

/-- The command in hand succeeds, and the worker keeps the connection it has. -/
structure Succeeds (n : Node) (c : Command) (progress : Node × List Event) : Prop where
  outcome : ∃ found, progress.2 = c.outcome (.ok found)
  failures : progress.1.failures = n.failures
  worker : progress.1.worker = .resting
  credentials : progress.1.credentials = n.credentials
  linked : progress.1.linked = n.linked
  connected : progress.1.connected = n.connected

/-- The command in hand fails. One failure is booked, and the worker is left without a
connection and says so. -/
structure Fails (n : Node) (c : Command) (progress : Node × List Event) : Prop where
  outcome : ∃ e, progress.2 = c.outcome (.error e)
  failures : progress.1.failures = n.failures + 1
  worker : progress.1.worker = .resting
  credentials : progress.1.credentials = n.credentials
  linked : progress.1.linked = false
  connected : progress.1.connected = false

/-- `Succeeds` for a command that is finished with a value or without one. -/
theorem succeeds_finish (n : Node) (c : Command) (found : Option ByteArray) :
    n.Succeeds c (n.finish c (.ok found)) := by
  rw [finish_eq]
  exact ⟨⟨found, rfl⟩, rfl, rfl, rfl, rfl, rfl⟩

/-- `Fails` for a command that meets an error. -/
theorem fails_fail (htold : n.connected = n.linked) (c : Command) (e : CacheError) :
    n.Fails c (n.fail c e) := by
  have hsilent : (n.connected && !n.linked) = false := by simp [htold]
  unfold fail
  rw [finish_eq]
  exact ⟨⟨e, rfl⟩, rfl, rfl, rfl, rfl, hsilent⟩

/-- The command in hand ends as its answer says: it `Succeeds` on an answer that
`keepsConnection`, and `Fails` on any other. -/
theorem exchanged_cases (htold : n.connected = n.linked) {request : Request}
    (hrequest : c.request? = some request) (answer : Answer) :
    if keepsConnection (request, answer) then n.Succeeds c (n.exchanged c (request.read answer))
    else n.Fails c (n.exchanged c (request.read answer)) := by
  have hok (found : Option ByteArray) : n.Succeeds c (n.finish c (.ok found)) :=
    succeeds_finish n c found
  have hfail (e : CacheError) : n.Fails c (n.fail c e) := fails_fail htold c e
  rw [← accepts_read]
  cases request.read answer with
  | data value => cases request <;> exact hok (some value)
  | absent => cases request <;> exact hok none
  | done => cases request <;> exact hok none
  | timeout => cases request <;> exact hfail _
  | fault fault =>
      cases c with
      | delete key ticket =>
          obtain rfl := Option.some.inj hrequest
          exact hok none
      | barrier ticket => contradiction
      | _ =>
          obtain rfl := Option.some.inj hrequest
          exact hfail _

/-- A login succeeds only if it is acknowledged, and else `Fails` the command. -/
theorem fails_loggedIn (htold : n.connected = n.linked) (c : Command) (login : Credentials)
    {answer : Answer} (hanswer : answer ≠ .status .stored) :
    n.Fails c (n.loggedIn c login.user ((loginRequest login).read answer)) := by
  unfold loginRequest
  obtain ⟨-, rfl⟩ | ⟨-, hread | ⟨fault, hread⟩⟩ :=
    read_set "auth" (login.user ++ " " ++ login.password).toUTF8 0 answer
  · contradiction
  · rw [hread]
    exact fails_fail htold c _
  · rw [hread]
    exact fails_fail htold c _

/-- What a command that is issued leaves of the worker and its connection: they are as
before, unless the worker had still to be started. -/
structure Spares (n n' : Node) : Prop where
  credentials : n'.credentials = n.credentials
  linked : n'.linked = n.linked
  connected : n'.connected = n.connected
  worker : n'.worker = n.worker ∨ n.worker = .absent ∧ n'.worker = .resting

theorem spares_submit {n' : Node} (h : n.submit c = .ok n') : n.Spares n' := by
  unfold submit at h
  split at h
  · contradiction
  · split at h
    · contradiction
    · rename_i hworker
      obtain rfl := Except.ok.inj h
      exact ⟨rfl, rfl, rfl, .inr ⟨hworker, rfl⟩⟩
    · split at h
      · contradiction
      · obtain rfl := Except.ok.inj h
        exact ⟨rfl, rfl, rfl, .inl rfl⟩

/-- Every command that is issued `Spares` the worker. -/
theorem spares_issue (n : Node) (c : Command) : n.Spares (n.issue c) := by
  have hsame : n.Spares n := ⟨rfl, rfl, rfl, .inl rfl⟩
  have hsubmit : n.Spares ((n.submit c).toOption.getD n) := by
    cases h : n.submit c with
    | error e => exact hsame
    | ok n' => exact spares_submit h
  cases c with
  | set key value expiration =>
      cases h : n.submitWrite key value expiration with
      | error e => simpa [issue, h, Except.toOption] using hsame
      | ok n' =>
          have hqueued : n.Spares n' := by
            unfold submitWrite at h
            split at h
            · rename_i hqueued
              obtain rfl := Except.ok.inj h
              obtain ⟨hcredentials, hlinked, hconnected, hworker⟩ := spares_submit hqueued
              exact ⟨hcredentials, hlinked, hconnected, hworker⟩
            · contradiction
          simpa [issue, h, Except.toOption] using hqueued
  | _ => exact hsubmit

/-- Whether the worker holds a connection, or is about to. -/
def isOnline (n : Node) : Bool := n.linked || n.awaited.isSome

/-- What `Fails` takes the connection with it. -/
theorem isOnline_of_fails {c : Command} {progress : Node × List Event} (h : n.Fails c progress) :
    progress.1.isOnline = false := by
  simp [isOnline, h.linked, awaited, h.worker]

/-- A command that is issued neither opens nor gives up a connection. -/
theorem Spares.isOnline {n' : Node} (h : n.Spares n') : n'.isOnline = n.isOnline := by
  obtain ⟨hcredentials, hlinked, -, hworker | ⟨habsent, hworker⟩⟩ := h
  · simp [Node.isOnline, awaited, hcredentials, hlinked, hworker]
  · simp [Node.isOnline, awaited, hlinked, hworker, habsent]

end Node

end CacheService.Remote
