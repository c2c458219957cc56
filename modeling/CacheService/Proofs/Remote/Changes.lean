import CacheService.Proofs.Remote.Interleaving

/-!
# CacheService.Proofs.Remote.Changes

What one step of a system can make of its client, said once for all steps.

* `System.Base` — the client that a step starts from. A call that starts forgets the
  answers that have arrived if no other call is there to read them.
* `System.Changes` — what the step makes of it, one case for each kind of change, with
  the number of writes that a stop gives up in it (`System.abandons`).
  `System.changes_step` proves it of every step.

Invariants of the client, and what it counts, are then proved one kind of change at a
time; what holds of all nodes goes through `Changes.nodes`.
-/

namespace CacheService.Remote

/-- The writes that a worker has still to run; none once it has ended. -/
def Node.waiting (n : Node) : Nat := if n.isGone then 0 else n.backlog.countP Command.isWrite

namespace System

open Cluster (Call Progress Stage)

/-- The writes that a stop gives up in a step: those of the worker that it waits for, if
the worker's time is up. -/
def abandons (s : System) : Step → Nat
  | .resume position true =>
    match s.underway[position]? with
    | some (_, .waits (.stop i _)) => (s.cluster.nodes[i]?.map Node.waiting).getD 0
    | _ => 0
  | _ => 0

/-- The writes that stops give up in some steps, by `abandons`. -/
def abandoned (s : System) : List Step → Nat
  | [] => 0
  | st :: steps => s.abandons st + (s.step st).abandoned steps

/-- The client as it is, or without the answers that have arrived if no call is under
way to read them. -/
def Base (s : System) (c : Cluster) : Prop :=
  c = s.cluster ∨ s.underway = [] ∧ c = s.cluster.forgetAnswers

/-- What a step can make of the client, and the writes that it gives up. -/
inductive Changes (s : System) : Step → Nat → Cluster → Prop
  /-- A call queues commands that are no writes, or does nothing. -/
  | queues (st : Step) (c c' : Cluster) (base : s.Base c) (asked : c.Queues c') : Changes s st 0 c'
  | writes (st : Step) (c : Cluster) (i : Nat) (n n' : Node) (key : String) (value : ByteArray)
      (expiration : Int) (base : s.Base c) (running : s.cluster.stopped = false)
      (node : c.nodes[i]? = some n) (taken : n.submitWrite key value expiration = .ok n')
      (issued : ∃ unixSeconds ttl, st = .start unixSeconds (.set key value ttl)) :
      Changes s st 0 { c with nodes := c.nodes.set i n' }
  /-- A write is lost before it is queued. -/
  | loses (st : Step) (c : Cluster) (base : s.Base c) :
      Changes s st 0 { c with droppedWrites := c.droppedWrites + 1 }
  | stops (unixSeconds : Int) (c : Cluster) (base : s.Base c)
    (running : s.cluster.stopped = false) :
      Changes s (.start unixSeconds .stop) 0
        { c with stopped := true, nodes := c.nodes.map Node.close }
  /-- A stop gives a worker up. -/
  | aborts (st : Step) (i : Nat) (n : Node) (node : s.cluster.nodes[i]? = some n)
      (running : n.isGone = false) (stopping : ∃ p ∈ s.underway, p.2.isStop = true) :
      Changes s st n.waiting { s.cluster with nodes := s.cluster.nodes.set i n.abort }
  | works (i : Nat) (n : Node) (step : WorkerStep) (node : s.cluster.nodes[i]? = some n) :
      Changes s (.worker i step) 0 { s.cluster with
        nodes := s.cluster.nodes.set i (n.advance s.wants step).1
        arrived := Cluster.kept s.wants (n.advance s.wants step).2 ++ s.cluster.arrived }
  | closes (i : Nat) (n : Node) (node : s.cluster.nodes[i]? = some n) :
      Changes s (.close i) 0 { s.cluster with nodes := s.cluster.nodes.set i n.close }

variable {s : System}

/-- A client is its own `Base`. -/
theorem base_self (s : System) : s.Base s.cluster := .inl rfl

/-- So is the client that a call starts with. -/
theorem base_fresh (s : System) : s.Base s.fresh := by
  unfold fresh
  split
  · exact .inr ⟨by simpa using ‹s.underway.isEmpty = true›, rfl⟩
  · exact .inl rfl

/-- A `Base` has the nodes of the client. -/
theorem Base.nodes {c : Cluster} (h : s.Base c) : c.nodes = s.cluster.nodes := by
  obtain rfl | ⟨-, rfl⟩ := h <;> rfl

/-- It is stopped if the client is. -/
theorem Base.stopped {c : Cluster} (h : s.Base c) : c.stopped = s.cluster.stopped := by
  obtain rfl | ⟨-, rfl⟩ := h <;> rfl

/-- It gives out the same tickets. -/
theorem Base.nextTicket {c : Cluster} (h : s.Base c) : c.nextTicket = s.cluster.nextTicket := by
  obtain rfl | ⟨-, rfl⟩ := h <;> rfl

/-- It keeps the answers that have arrived while a call is under way. -/
theorem Base.arrived {c : Cluster} (h : s.Base c) (hbusy : s.underway ≠ []) :
    c.arrived = s.cluster.arrived := by
  obtain rfl | ⟨hidle, -⟩ := h
  · rfl
  · exact absurd hidle hbusy

/-- A step that does nothing is one of `Changes`. -/
theorem changes_nothing (s : System) (st : Step) : s.Changes st 0 s.cluster :=
  .queues st s.cluster _ s.base_self (.refl _)

@[simp] theorem cluster_turned (s : System) (call : Call) (stage : Stage) :
    (s.turned call stage).cluster = stage.1 := by
  unfold turned
  cases stage.2 <;> rfl

/-- A write that starts is one of `Changes`: it queues one command, or none. -/
theorem changes_set (s : System) (unixSeconds : Int) (key : String) (value : ByteArray)
    (ttl : UInt32) :
    s.Changes (.start unixSeconds (.set key value ttl)) 0
      (s.fresh.start unixSeconds (.set key value ttl)).cluster := by
  have hsame (c : Cluster) (hc : s.Base c) :
      s.Changes (.start unixSeconds (.set key value ttl)) 0 c := .queues _ c c hc (.refl c)
  unfold Cluster.start
  dsimp only
  cases hstopped : s.fresh.stopped with
  | true => exact hsame _ s.base_fresh
  | false =>
      have hrunning : s.cluster.stopped = false := s.stopped_fresh ▸ hstopped
      unfold Cluster.startRunning Cluster.startSet
      dsimp only
      cases validateKey key with
      | error e => exact .loses _ _ s.base_fresh
      | ok _ =>
          cases hn : s.fresh.nodes[s.fresh.nodeOf key]? with
          | none => simpa [hn] using hsame _ s.base_fresh
          | some n =>
              cases htaken : n.submitWrite key value (wireExpiration ttl unixSeconds) with
              | ok n' =>
                  simpa [hn, htaken] using
                    .writes _ s.fresh _ n n' key value _ s.base_fresh hrunning hn htaken ⟨_, _, rfl⟩
              | error e =>
                  cases he : e.isIllegalState with
                  | true => simpa [hn, htaken, he] using hsame _ s.base_fresh
                  | false => simpa [hn, htaken, he] using .loses _ _ s.base_fresh

/-- So is a stop that starts. -/
theorem changes_stop (s : System) (unixSeconds : Int) :
    s.Changes (.start unixSeconds .stop) 0 (s.fresh.start unixSeconds .stop).cluster := by
  unfold Cluster.start Cluster.startRunning Cluster.startStop
  dsimp only
  cases hstopped : s.fresh.stopped with
  | true => exact .queues _ _ _ s.base_fresh (.refl _)
  | false =>
      have hrunning : s.cluster.stopped = false := s.stopped_fresh ▸ hstopped
      simpa using .stops unixSeconds s.fresh s.base_fresh hrunning

/-- Only a stop that waits for a worker is told by `isStop`. -/
theorem eq_stop_of_isStop {progress : Progress} (h : progress.isStop = true) :
    ∃ i rest, progress = .waits (.stop i rest) := by
  cases progress with
  | queues left queued => contradiction
  | waits wait =>
      cases wait with
      | stop i rest => exact ⟨i, rest, rfl⟩
      | _ => contradiction

/-- A call other than a stop gives up no writes. -/
theorem abandons_of_runs {position : Nat} {call : Call} {progress : Progress}
    (hw : s.underway[position]? = some (call, progress)) (hruns : progress.isStop = false)
    (late : Bool) : s.abandons (.resume position late) = 0 := by
  cases late with
  | false => rfl
  | true =>
      simp only [abandons, hw]
      cases progress with
      | queues left queued => rfl
      | waits wait =>
          cases wait with
          | stop i rest => contradiction
          | _ => rfl

/-- A stop that goes on is one of `Changes`, and gives up what `abandons` says. -/
theorem changes_resume_stop {position : Nat} {call : Call} {i : Nat} {rest : List Nat}
    (hw : s.underway[position]? = some (call, .waits (.stop i rest))) (late : Bool) :
    s.Changes (.resume position late) (s.abandons (.resume position late))
      (s.cluster.goOn late (.waits (.stop i rest))).1 := by
  have hcluster : (s.cluster.goOn late (.waits (.stop i rest))).1 =
      (s.cluster.resume late (.stop i rest)).cluster := rfl
  rw [hcluster, Cluster.resume_stop]
  cases hn : s.cluster.nodes[i]? with
  | none => cases late <;> simpa [abandons, hw, hn] using s.changes_nothing _
  | some n =>
      cases hgone : n.isGone with
      | true =>
          cases late <;> simpa [abandons, hw, hn, hgone, Node.waiting] using s.changes_nothing _
      | false =>
          cases late with
          | false => simpa [abandons, hgone] using s.changes_nothing _
          | true =>
              simpa [abandons, hw, hn, hgone, List.modify_eq_set_getElem?] using
                .aborts (.resume position true) i n hn hgone ⟨_, List.mem_of_getElem? hw, rfl⟩

/-- **What one step can make of the client**: every step is one of `Changes`. -/
theorem changes_step (s : System) (st : Step) :
    s.Changes st (s.abandons st) (s.step st).cluster := by
  cases st with
  | start unixSeconds call =>
      simp only [step, cluster_turned]
      cases call with
      | set key value ttl => exact s.changes_set unixSeconds key value ttl
      | stop => exact s.changes_stop unixSeconds
      | _ =>
          exact .queues _ _ _ s.base_fresh (Cluster.queues_begin _ unixSeconds (by simp) (by simp))
  | resume position late =>
      cases hw : s.underway[position]? with
      | none =>
          rw [step_resume_none hw]
          cases late <;> simpa [abandons, hw] using s.changes_nothing _
      | some p =>
          obtain ⟨call, progress⟩ := p
          simp only [step_resume_some hw, cluster_turned]
          cases hstop : progress.isStop with
          | false =>
              rw [abandons_of_runs hw hstop]
              exact .queues _ _ _ s.base_self (Cluster.queues_goOn s.cluster late hstop)
          | true =>
              obtain ⟨i, rest, rfl⟩ := eq_stop_of_isStop hstop
              exact changes_resume_stop hw late
  | abandon position => exact s.changes_nothing _
  | worker i step =>
      cases hn : s.cluster.nodes[i]? with
      | none => simpa [step_worker_none hn, abandons] using s.changes_nothing _
      | some n =>
          simp only [step_worker_some hn, Cluster.worked_eq]
          exact .works i n step hn
  | close i =>
      cases hn : s.cluster.nodes[i]? with
      | none => simpa [step, List.modify_eq_set_getElem?, hn, abandons] using s.changes_nothing _
      | some n => simpa [step, List.modify_eq_set_getElem?, hn, abandons] using .closes i n hn

/-! ## What changes of all nodes -/

section Nodes

variable {st : Step} {given : Nat} {c' : Cluster}

/-- What holds between the states of a node before and after each kind of change holds
so for every node. -/
theorem Changes.nodes {R : Node → Node → Prop} (h : s.Changes st given c') (hrefl : ∀ n, R n n)
    (hqueued : ∀ n n', n.Queued s.cluster.nextTicket c'.nextTicket n' → R n n')
    (hwrite : ∀ n n' key value expiration, n.submitWrite key value expiration = .ok n' → R n n')
    (hclose : ∀ n : Node, R n n.close) (habort : ∀ n : Node, R n n.abort)
    (hadvance : ∀ (n : Node) (step : WorkerStep), R n (n.advance s.wants step).1) :
    List.Forall₂ R s.cluster.nodes c'.nodes := by
  have hset {i : Nat} {n n' : Node} (hn : s.cluster.nodes[i]? = some n) (hR : R n n') :
      List.Forall₂ R s.cluster.nodes (s.cluster.nodes.set i n') := Cluster.forall₂_set hrefl hn hR
  cases h with
  | queues _ c _ base hasked =>
      rw [← base.nodes]
      exact hasked.nodes.imp fun n n' hn => hqueued n n' (base.nextTicket ▸ hn)
  | writes _ c i n n' key value expiration base running hn htaken =>
      rw [base.nodes] at hn ⊢
      exact hset hn (hwrite n n' key value expiration htaken)
  | loses _ c base => exact base.nodes ▸ List.forall₂_same.mpr fun n _ => hrefl n
  | stops unixSeconds c base running =>
      rw [← base.nodes]
      exact List.forall₂_map_right_iff.mpr (List.forall₂_same.mpr fun n _ => hclose n)
  | aborts _ i n hn hruns => exact hset hn (habort n)
  | works i n step hn => exact hset hn (hadvance n step)
  | closes i n hn => exact hset hn (hclose n)

/-- The nodes stay the same ones: `System.after` keeps their number. -/
theorem length_after (s : System) (steps : List Step) :
    (s.after steps).cluster.nodes.length = s.cluster.nodes.length := by
  induction steps generalizing s with
  | nil => rfl
  | cons st steps ih =>
      have hnodes : List.Forall₂ (fun _ _ => True) s.cluster.nodes (s.step st).cluster.nodes :=
        (s.changes_step st).nodes (fun _ => trivial) (fun _ _ _ => trivial)
          (fun _ _ _ _ _ _ => trivial) (fun _ => trivial) (fun _ => trivial) (fun _ _ => trivial)
      exact (ih (s.step st)).trans hnodes.length_eq.symm

/-- A client that is `stopped` stays so. -/
theorem Changes.stopped (h : s.Changes st given c') (hstopped : s.cluster.stopped = true) :
    c'.stopped = true := by
  cases h with
  | queues _ c _ base hasked => exact hasked.stopped.trans (base.stopped.trans hstopped)
  | writes _ c i n n' key value expiration base running hn htaken =>
      exact base.stopped.trans hstopped
  | loses _ c base => exact base.stopped.trans hstopped
  | stops unixSeconds c base running => rfl
  | aborts _ i n hn hruns => exact hstopped
  | works i n step hn => exact hstopped
  | closes i n hn => exact hstopped

/-- Without a step of a worker no answer arrives, and none is forgotten while a call is
under way. -/
theorem Changes.arrived (h : s.Changes st given c') (hbusy : s.underway ≠ [])
    (hst : ∀ i step, st ≠ .worker i step) : c'.arrived = s.cluster.arrived := by
  cases h with
  | queues _ c _ base hasked => exact hasked.arrived.trans (base.arrived hbusy)
  | writes _ c i n n' key value expiration base running hn htaken => exact base.arrived hbusy
  | loses _ c base => exact base.arrived hbusy
  | stops unixSeconds c base running => exact base.arrived hbusy
  | works i n step hn => exact absurd rfl (hst i step)
  | _ => rfl

end Nodes

end System

end CacheService.Remote
