import CacheService.Proofs.Remote.Asks

/-!
# CacheService.Proofs.Remote.Interleaving

Every way in which the calls of a client, the workers of its nodes and the network may
interleave.

* `Step` — one move of one party: a call starts, goes on or is given up, a worker does
  the next thing it has to do, or a node is closed on its own.
* `System` — a client with any number of calls under way, and the record of what has
  come of them. `System.step` and `System.after` are the system after a step and after
  some; `System.after_induction` is the induction over runs.
* `Cluster.Progress` — how far a call has got. It goes on from one wait to the next
  (`Cluster.goOn`).

The reads of several keys are queued one at a time, since a worker may take a read while
the next is being queued; `System.after_getMany` says that nothing else comes of it if
none does.
-/

namespace CacheService.Remote

/-! ## Calls -/

namespace Cluster

/-- How far a call has got that has not returned. -/
inductive Progress
  /-- The reads of some keys are queued, those of others are still to be. -/
  | queues (left : List String) (queued : List PendingRead)
  | waits (wait : Waiting)

/-- The tickets whose answers a call still reads. -/
def Progress.tickets : Progress → List Ticket
  | .queues _ queued => queued.filterMap (·.answer.toOption)
  | .waits wait => wait.tickets

/-- A client after a step of a call, with the result of the call or its `Progress`. -/
abbrev Stage := Cluster × (Result ⊕ Progress)

/-- The client after a turn, with the result of the call or the wait that it has come
to. -/
def Turn.stage (turn : Turn) : Stage := (turn.cluster, turn.next.map id .waits)

/-- Starts a call up to its first wait, or to the first read of several. -/
def begin (c : Cluster) (unixSeconds : Int) (call : Call) : Stage :=
  match call with
  | .getMany keys =>
    if c.stopped then (c.start unixSeconds call).stage else (c, .inr (.queues keys []))
  | _ => (c.start unixSeconds call).stage

/-- Goes on with a call, whose time limit is up if it is `late`. -/
def goOn (c : Cluster) (late : Bool) : Progress → Stage
  | .queues (key :: left) queued =>
    let (c, reads, _) := c.submitReads [key]
    (c, .inr (.queues left (queued ++ reads)))
  | .queues [] queued => (c.settleReads late {} queued).stage
  | .waits wait => (c.resume late wait).stage

/-- Whether a call stops the client. -/
def Progress.isStop : Progress → Bool
  | .waits (.stop _ _) => true
  | .queues _ _ | .waits _ => false

/-- A call that neither writes nor stops `Queues` commands when it begins. -/
theorem queues_begin (c : Cluster) (unixSeconds : Int) {call : Call}
    (hcall : ∀ key value ttl, call ≠ .set key value ttl) (hruns : call ≠ .stop) :
    c.Queues (c.begin unixSeconds call).1 := by
  cases call with
  | getMany keys =>
      unfold begin
      dsimp only
      split
      · exact queues_start c unixSeconds hcall hruns
      · exact .refl c
  | _ => exact queues_start c unixSeconds hcall hruns

/-- A call that does not write `Asks` when it begins. -/
theorem asks_begin (c : Cluster) (unixSeconds : Int) {call : Call}
    (hcall : ∀ key value ttl, call ≠ .set key value ttl) : c.Asks (c.begin unixSeconds call).1 := by
  cases call with
  | stop => exact asks_start c unixSeconds hcall
  | _ => exact (queues_begin c unixSeconds hcall (by simp)).asks

/-- A call that goes on `Queues` commands, unless it stops the client. -/
theorem queues_goOn (c : Cluster) (late : Bool) {progress : Progress}
    (hruns : progress.isStop = false) : c.Queues (c.goOn late progress).1 := by
  cases progress with
  | queues left queued =>
      cases left with
      | nil => exact queues_settleReads c late {} queued
      | cons key left => exact queues_submitReads c [key]
  | waits wait => exact queues_resume c late fun i rest h => by simp [h, Progress.isStop] at hruns

/-- A call that goes on `Asks`. -/
theorem asks_goOn (c : Cluster) (late : Bool) (progress : Progress) :
    c.Asks (c.goOn late progress).1 := by
  cases progress with
  | queues left queued => exact (queues_goOn c late rfl).asks
  | waits wait => exact asks_resume c late wait

/-- The rest of a call that has queued some of its reads, in one step. -/
def readRest (c : Cluster) (left : List String) (queued : List PendingRead) : Turn :=
  (c.submitReads left).1.settleReads false {} (queued ++ (c.submitReads left).2.1)

/-- `readRest` queues the next read and goes on. -/
theorem readRest_cons (c : Cluster) (key : String) (left : List String)
    (queued : List PendingRead) :
    c.readRest (key :: left) queued =
      (c.submitReads [key]).1.readRest left (queued ++ (c.submitReads [key]).2.1) := by
  cases h : validateKey key <;> simp [readRest, submitReads, h]

/-! ## Taking in what workers bring about -/

/-- A client after a step of a worker, which has come to a node and to events. -/
def worked (c : Cluster) (i : Nat) (wanted : Ticket → Bool)
    (progress : Node × List Event) : Cluster :=
  (c.replace i wanted progress.1 progress.2).1

/-- The answers among events that someone waits for, the last first. -/
def kept (wanted : Ticket → Bool) (events : List Event) : List (Ticket × Finding) :=
  (events.filterMap fun
    | .answered ticket finding => if wanted ticket then some (ticket, finding) else none
    | .stored _ | .dropped .. => none).reverse

/-- `absorb` takes in the answers that are `kept`, and nothing else. -/
theorem absorb_cluster (c : Cluster) (i : Nat) (wanted : Ticket → Bool) (events : List Event) :
    (c.absorb i wanted events).1 = { c with arrived := kept wanted events ++ c.arrived } := by
  induction events generalizing c with
  | nil => rfl
  | cons event events ih =>
      cases event with
      | answered ticket finding =>
          unfold absorb
          rw [ih]
          cases h : wanted ticket <;> simp [kept, h]
      | stored key =>
          unfold absorb
          rw [ih]
          simp [kept]
      | dropped key e =>
          unfold absorb
          simpa [kept] using ih c

/-- `worked` puts the node back and takes in the answers that are `kept`. -/
theorem worked_eq (c : Cluster) (i : Nat) (wanted : Ticket → Bool) (progress : Node × List Event) :
    c.worked i wanted progress = { c with
      nodes := c.nodes.set i progress.1
      arrived := kept wanted progress.2 ++ c.arrived } :=
  absorb_cluster ..

end Cluster

/-! ## Systems -/

/-- A client with its calls under way, and the record of what has come of them so far. -/
structure System where
  cluster : Cluster
  /-- The calls that have started and not returned. -/
  underway : List (Cluster.Call × Cluster.Progress) := []
  /-- The calls that have returned, in order, with their results. -/
  returned : List (Cluster.Call × Cluster.Result) := []
  /-- The answers of servers to commands, in the order in which workers read them. -/
  answered : List (Command × Answer) := []

/-- One move of one party. -/
inductive Step
  | start (unixSeconds : Int) (call : Cluster.Call)
  /-- The call at a position among those under way goes on, its time limit being up or not. -/
  | resume (position : Nat) (late : Bool)
  /-- The caller gives a call up. -/
  | abandon (position : Nat)
  | worker (node : Nat) (step : WorkerStep)
  /-- One node takes nothing more. -/
  | close (node : Nat)

namespace System

open Cluster (Call Progress Result Stage)

/-- Whether a call still reads the answer under `ticket`. -/
def wants (s : System) (ticket : Ticket) : Bool :=
  s.underway.any fun call => call.2.tickets.contains ticket

/-- Takes in the `Stage` that a step of a call has come to. -/
def turned (s : System) (call : Call) (stage : Stage) : System :=
  match stage.2 with
  | .inl result => { s with cluster := stage.1, returned := s.returned ++ [(call, result)] }
  | .inr progress => { s with cluster := stage.1, underway := s.underway ++ [(call, progress)] }

/-- The client that a call starts on: without a call under way, answers that have
arrived are forgotten. -/
def fresh (s : System) : Cluster :=
  if s.underway.isEmpty then s.cluster.forgetAnswers else s.cluster

/-- The system after a step. -/
def step (s : System) : Step → System
  | .start unixSeconds call => s.turned call (s.fresh.begin unixSeconds call)
  | .resume position late =>
    match s.underway[position]? with
    | none => s
    | some (call, progress) =>
      { s with underway := s.underway.eraseIdx position }.turned call
        (s.cluster.goOn late progress)
  | .abandon position => { s with underway := s.underway.eraseIdx position }
  | .worker i step =>
    match s.cluster.nodes[i]? with
    | none => s
    | some n =>
      { s with
        cluster := s.cluster.worked i s.wants (n.advance s.wants step)
        answered := s.answered ++ n.heard step }
  | .close i =>
      { s with cluster := { s.cluster with nodes := s.cluster.nodes.modify i Node.close } }

/-- The system after some steps. -/
def after (s : System) (steps : List Step) : System := steps.foldl step s

@[simp] theorem after_nil (s : System) : s.after [] = s := rfl

@[simp] theorem after_cons (s : System) (st : Step) (steps : List Step) :
    s.after (st :: steps) = (s.step st).after steps := rfl

/-- A run is put together from two. -/
theorem after_append (s : System) (steps steps' : List Step) :
    s.after (steps ++ steps') = (s.after steps).after steps' := List.foldl_append ..

/-- What every `step` preserves holds after every run. -/
theorem after_induction {P : System → Prop} (hstep : ∀ s st, P s → P (s.step st)) {s : System}
    (h : P s) (steps : List Step) : P (s.after steps) := by
  induction steps generalizing s with
  | nil => exact h
  | cons st steps ih => exact ih (hstep s st h)

end System

/-! ## Steps of a system -/

namespace System

open Cluster (Call PendingRead Progress Result Stage)

variable {s : System}

/-- With no call at the position, `resume` does nothing. -/
theorem step_resume_none {k : Nat} (h : s.underway[k]? = none) (late : Bool) :
    s.step (.resume k late) = s := by
  simp only [step, h]

/-- `resume` takes a call out of those under way and turns it. -/
theorem step_resume_some {k : Nat} {call : Call} {progress : Progress}
    (h : s.underway[k]? = some (call, progress)) (late : Bool) :
    s.step (.resume k late) =
      { s with underway := s.underway.eraseIdx k }.turned call (s.cluster.goOn late progress) := by
  simp only [step, h]

/-- Without the node, a step of its worker does nothing. -/
theorem step_worker_none {i : Nat} (h : s.cluster.nodes[i]? = none) (st : WorkerStep) :
    s.step (.worker i st) = s := by
  simp only [step, h]

/-- A step of a worker is its node's `advance`, and what it has heard is recorded. -/
theorem step_worker_some {i : Nat} {n : Node} (h : s.cluster.nodes[i]? = some n) (st : WorkerStep) :
    s.step (.worker i st) = { s with
      cluster := s.cluster.worked i s.wants (n.advance s.wants st)
      answered := s.answered ++ n.heard st } := by
  simp only [step, h]

/-- A call is under way after a step of it that says so. -/
theorem progress_of_mem_turned {call : Call} {stage : Stage} (hs : s.underway = [])
    {p : Call × Progress} (hp : p ∈ (s.turned call stage).underway) : stage.2 = .inr p.2 := by
  unfold turned at hp
  cases hnext : stage.2 with
  | inl result => simp [hnext, hs] at hp
  | inr progress =>
      obtain rfl : p = (call, progress) := by simpa [hnext, hs] using hp
      rfl

theorem turned_cluster (s : System) (c : Cluster) (call : Call) (stage : Stage) :
    System.turned { s with cluster := c } call stage = s.turned call stage := by
  unfold turned
  cases stage.2 <;> rfl

/-- The last call that is under way goes on. -/
theorem step_resume_last (s : System) (call : Call) (progress : Progress) (late : Bool) :
    System.step { s with underway := s.underway ++ [(call, progress)] }
        (.resume s.underway.length late) = s.turned call (s.cluster.goOn late progress) := by
  have hlast : (s.underway ++ [(call, progress)])[s.underway.length]? = some (call, progress) := by
    simp
  rw [step_resume_some hlast]
  simp [List.eraseIdx_append_of_length_le]

/-- Without calls under way, `fresh` forgets answers. -/
theorem fresh_of_idle (h : s.underway = []) : s.fresh = s.cluster.forgetAnswers := by
  simp [fresh, h]

/-- `fresh` is stopped if the client is. -/
theorem stopped_fresh (s : System) : s.fresh.stopped = s.cluster.stopped := by
  unfold fresh
  split <;> rfl

/-- Steps of a call alone queue the reads that are left and settle all of them, as
`readRest` does at once. -/
theorem after_queues (s : System) (call : Call) (left : List String) (queued : List PendingRead) :
    System.after { s with underway := s.underway ++ [(call, .queues left queued)] }
        (.replicate (left.length + 1) (.resume s.underway.length false)) =
      s.turned call (s.cluster.readRest left queued).stage := by
  induction left generalizing s queued with
  | nil =>
      have hrest : s.cluster.readRest [] queued = s.cluster.settleReads false {} queued := by
        simp [Cluster.readRest, Cluster.submitReads]
      rw [hrest]
      exact step_resume_last s call _ false
  | cons key left ih =>
      have hrest := ih { s with cluster := (s.cluster.submitReads [key]).1 }
        (queued ++ (s.cluster.submitReads [key]).2.1)
      rw [turned_cluster, ← Cluster.readRest_cons] at hrest
      rw [List.length_cons, List.replicate_succ, after_cons, step_resume_last]
      exact hrest

/-- A read of several keys that nothing comes between goes as in one step. -/
theorem after_getMany (s : System) (hrunning : s.cluster.stopped = false) (unixSeconds : Int)
    (keys : List String) :
    s.after (.start unixSeconds (.getMany keys) ::
        .replicate (keys.length + 1) (.resume s.underway.length false)) =
      s.turned (.getMany keys) (s.fresh.start unixSeconds (.getMany keys)).stage := by
  have hfresh : s.fresh.stopped = false := s.stopped_fresh.trans hrunning
  have hstart : s.fresh.start unixSeconds (.getMany keys) = s.fresh.startGetMany keys := by
    simp [Cluster.start, Cluster.startRunning, hfresh]
  have hbegun : s.step (.start unixSeconds (.getMany keys)) =
      { s with
        cluster := s.fresh
        underway := s.underway ++ [(.getMany keys, .queues keys [])] } := by
    simp [step, Cluster.begin, turned, hfresh]
  have hqueues := after_queues { s with cluster := s.fresh } (.getMany keys) keys []
  rw [turned_cluster] at hqueues
  rw [after_cons, hbegun, hstart]
  exact hqueues

/-- Starting a call changes a client only by forgetting answers. -/
theorem asks_fresh (s : System) : s.cluster.Asks s.fresh := by
  unfold fresh
  split
  · exact .of_nodes rfl rfl
  · exact .refl _

end System

end CacheService.Remote
