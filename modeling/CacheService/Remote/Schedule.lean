import CacheService.Remote.Cluster

/-!
# CacheService.Remote.Schedule

Running the remote client on a network, one call at a time (`Live.call`). While a call
waits, every worker runs until its queue is empty or its server is silent (`settle`).
Time stands still as long as anything can run; then one time limit passes, at which
first the caller's own limit and then those of the workers are up (`expire`). A call
waits for one limit, a stop for two per worker, and waiting for writes has no limit
(`patience`). A limit of no time is up before any worker has run (`isOverdue`).

This is one of the orders in which calls and workers may take turns. What holds in every
order is stated of `System` in the proofs, of which such a run is a case.
-/

namespace CacheService.Remote

/-- A client at work, with what it has reported. -/
structure Live (σ : Type) where
  cluster : Cluster
  network : σ
  notices : List Notice := []

namespace Live

variable {σ : Type} [Network σ]

/-- Adds what has been reported. -/
def report (l : Live σ) (c : Cluster) (notices : List Notice) : Live σ :=
  { l with cluster := c, notices := l.notices ++ notices }

/-- Lets the worker of one node run. -/
def settleNode (wanted : Ticket → Bool) (l : Live σ) (i : Nat) : Live σ :=
  match l.cluster.nodes[i]? with
  | none => l
  | some n =>
    let (n, events, network) := n.run i wanted l.network
    let (c, notices) := l.cluster.replace i wanted n events
    { l.report c notices with network }

/-- Lets every worker run. -/
def settle (l : Live σ) (wanted : Ticket → Bool) : Live σ :=
  l.cluster.positions.foldl (settleNode wanted) l

/-- The limit of one node's worker is up, if it waits. -/
def expireNode (wanted : Ticket → Bool) (l : Live σ) (i : Nat) : Live σ :=
  match l.cluster.nodes[i]? with
  | none => l
  | some n =>
    let (n, events) := n.expire
    let (c, notices) := l.cluster.replace i wanted n events
    l.report c notices

/-- The limit of every waiting worker is up. -/
def expire (l : Live σ) (wanted : Ticket → Bool) : Live σ :=
  l.cluster.positions.foldl (expireNode wanted) l

/-- Whether some worker can run without the clock. -/
def canRun (l : Live σ) : Bool :=
  l.cluster.nodes.any fun n =>
    match n.worker with
    | .resting => !n.queue.isEmpty || n.closed
    | _ => false

/-- How many time limits a call waits for. -/
def patience : Cluster.Waiting → Option Nat
  | .stop _ _ => some 2
  | .awaitWrites _ _ _ => none
  | _ => some 1

/-- The limits that have passed while the call waits as it does now. A stop
counts them for each worker on its own. -/
def elapsedFor (elapsed : Nat) : (before now : Cluster.Waiting) → Nat
  | .stop i _, .stop j _ => if i = j then elapsed else 0
  | _, _ => elapsed

/-- Whether a call that has begun to wait is out of time already. -/
def isOverdue (l : Live σ) (w : Cluster.Waiting) : Bool :=
  l.cluster.timeout.isZero && (patience w).isSome

/-- Goes on with a waiting call until it returns, in up to `rounds` rounds: the call
goes on (`resume`) if it can or has to, else the workers run, else time passes. -/
def await : (rounds elapsed : Nat) → Cluster.Waiting → Live σ → Cluster.Result × Live σ
  | 0, _, _, l => (.error (.internal "the call does not end"), l)
  | rounds + 1, elapsed, w, l =>
    let turn := l.cluster.resume (l.isOverdue w) w
    let l := l.report turn.cluster turn.notices
    match turn.next with
    | .inl r => (r, l)
    | .inr now =>
      let elapsed := elapsedFor elapsed w now
      if l.isOverdue now then await rounds elapsed now l
      else if l.canRun then await rounds elapsed now (l.settle (now.tickets.contains ·))
      else
        let late := (patience now).any (· ≤ elapsed + 1)
        let turn := l.cluster.resume late now
        let l := l.report turn.cluster turn.notices
        match turn.next with
        | .inl r => (r, l.expire fun _ => false)
        | .inr next =>
          await rounds (elapsedFor (elapsed + 1) now next) next
            (l.expire (next.tickets.contains ·))

/-- More rounds than the call can take: every round but the last of each wait
runs or gives up a command, or ends a wait. -/
def roundsFor (c : Cluster) (w : Cluster.Waiting) : Nat :=
  4 * (c.nodes.foldl (fun sum n => sum + (n.queue.length + 4)) 0 + w.tickets.length + 4)

/-- Runs a call to its end, with no other call under way. -/
def call (l : Live σ) (unixSeconds : Int) (call : Cluster.Call) : Cluster.Result × Live σ :=
  let turn := l.cluster.forgetAnswers.start unixSeconds call
  let l := l.report turn.cluster turn.notices
  match turn.next with
  | .inl r => (r, l)
  | .inr w => await (roundsFor l.cluster w) 0 w l

/-- Lets the workers run, and time pass where a server is silent, in up to
`rounds` rounds, until no write is pending. With none to begin with, nothing
runs. -/
def flushWrites : (rounds : Nat) → Live σ → Live σ
  | 0, l => l
  | rounds + 1, l =>
    if l.cluster.pendingWrites = 0 then l
    else
      let l := l.settle fun _ => false
      if l.cluster.pendingWrites = 0 then l
      else flushWrites rounds (l.expire fun _ => false)

/-- Lets the workers run what is queued until no write is pending. -/
def quiesce (l : Live σ) : Live σ :=
  flushWrites (l.cluster.nodes.foldl (fun sum n => sum + (n.queue.length + 2)) 0 + 1) l

/-- Lets the workers run, and time pass where a server is silent, in up to
`rounds` rounds, until the worker of one node has ended. -/
def awaitEnd (i : Nat) : (rounds : Nat) → Live σ → Live σ
  | 0, l => l
  | rounds + 1, l =>
    let l := l.settle fun _ => false
    if (l.cluster.nodes[i]?.map Node.isGone).getD true then l
    else awaitEnd i rounds (l.expire fun _ => false)

/-- Closes one node and lets its worker end; tells whether it had one. -/
def closeNode (l : Live σ) (i : Nat) : Bool × Live σ :=
  match l.cluster.nodes[i]? with
  | none => (false, l)
  | some n =>
    let had := n.isStarted && !n.closed
    let l := { l with cluster := { l.cluster with nodes := l.cluster.nodes.set i n.close } }
    (had, if had then l.awaitEnd i (n.queue.length + 2) else l)

end Live

end CacheService.Remote
