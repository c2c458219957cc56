import CacheService.Proofs.Remote.Books
import CacheService.Proofs.Remote.Changes
import CacheService.Proofs.Remote.Healthy
import CacheService.Proofs.Remote.Promises

/-!
# CacheService.Proofs.Remote.Draining

What waiting for writes waits for. On one node after the other the wait queues a barrier
and goes on when it is answered, by which time everything that was queued before it has
run. A node whose queue is full takes no barrier, and the wait goes on without it: only
nodes with room are sure to be drained.

* `Cluster.Ticketed` — no ticket is in use that has not been given out.
* `Cluster.Drains` — what a wait has done so far: the nodes that are behind it are
  drained, unless their queues were full. `Node.IsBarred` is a node whose barrier is
  still to be answered.
* `System.Draining` — a system with such a wait under way beside others. Steps that
  queue nothing (`System.IsQuiet`) keep it (`Draining.step`), and from there a whole run
  (`Draining.after`).
-/

namespace CacheService.Remote

/-! ## Tickets -/

namespace Node

variable {n n' : Node} {wanted : Ticket → Bool}

/-- `submit` adds the ticket of the command, if it has one. -/
theorem ticketsOf_submit {c : Command} (h : n.submit c = .ok n') :
    ∀ ticket ∈ ticketsOf n'.backlog, ticket ∈ ticketsOf n.backlog ∨ c.ticket? = some ticket := by
  have happend (worker : Worker) : ∀ ticket ∈ ticketsOf (n.inHand.toList ++ (n.queue ++ [c])),
      ticket ∈ ticketsOf n.backlog ∨ c.ticket? = some ticket := by
    intro ticket hticket
    rw [← List.append_assoc, ticketsOf_append, List.mem_append] at hticket
    exact hticket.imp_right fun hc => by simpa [ticketsOf] using hc
  unfold submit at h
  split at h
  · contradiction
  · split at h
    · contradiction
    · obtain rfl := Except.ok.inj h
      intro ticket hticket
      exact .inr (by simpa [backlog, inHand, ticketsOf] using hticket)
    · split at h
      · contradiction
      · obtain rfl := Except.ok.inj h
        exact happend n.worker

/-- What is `Queued` by calls has tickets that were given out meanwhile. -/
theorem ticketsOf_queued {first bound : Ticket} (h : n.Queued first bound n') :
    ∀ ticket ∈ ticketsOf n'.backlog, ticket ∈ ticketsOf n.backlog ∨ ticket < bound := by
  induction h with
  | refl => exact fun ticket hticket => .inl hticket
  | submit m m' c given _ hasked hgiven hqueued ih =>
      intro ticket hticket
      obtain hm | hc := ticketsOf_submit hqueued ticket hticket
      · exact ih ticket hm
      · obtain rfl := Option.some.inj (hasked.symm.trans hc)
        exact .inr hgiven.2

/-- A worker answers under the tickets of its own commands only. -/
theorem Moves.tickets {acknowledged : Nat} {progress : Node × List Event}
    (h : n.Moves acknowledged progress) :
    (∀ ticket ∈ ticketsOf progress.1.backlog, ticket ∈ ticketsOf n.backlog) ∧
      ∀ ticket finding, .answered ticket finding ∈ progress.2 → ticket ∈ ticketsOf n.backlog := by
  cases h with
  | goesOn n' hkept hbacklog hp hd => exact ⟨fun _ ht => hbacklog ▸ ht, by simp⟩
  | passesOver n' key ticket hkept hbacklog hp hd =>
      exact ⟨fun t ht => by simp [hbacklog, ht], by simp⟩
  | answers n' c ticket finding hkept hasked hbacklog hp hd =>
      refine ⟨fun t ht => by simp [hbacklog, ht], fun t f ht => ?_⟩
      obtain ⟨rfl, rfl⟩ : t = ticket ∧ f = finding := by simpa using ht
      simp [hbacklog, hasked]
  | stores n' key value expiration hkept hbacklog hp hd =>
      exact ⟨fun t ht => by simp [hbacklog, ht], by simp⟩
  | drops n' key value expiration e hkept hbacklog hp hd =>
      exact ⟨fun t ht => by simp [hbacklog, ht], by simp⟩

/-- The barrier under `ticket` is still to be answered: it is the last command, and
there is no other with its ticket. -/
def IsBarred (n : Node) (ticket : Ticket) : Prop :=
  ∃ before, n.backlog = before ++ [.barrier ticket] ∧ ticket ∉ ticketsOf before

/-- A worker answers a barrier after all that was queued before it. -/
theorem Moves.barred {ticket : Ticket} {acknowledged : Nat} {progress : Node × List Event}
    (h : n.Moves acknowledged progress) (hbarred : n.IsBarred ticket) :
    progress.1.backlog = [] ∨
      progress.1.IsBarred ticket ∧ ∀ finding, .answered ticket finding ∉ progress.2 := by
  obtain ⟨before, hbefore, hticket⟩ := hbarred
  -- The command that is done with is either the barrier or the first one before it.
  have hnext {c : Command} (hc : n.backlog = c :: progress.1.backlog) :
      progress.1.backlog = [] ∧ c = .barrier ticket ∨
        progress.1.IsBarred ticket ∧ c.ticket? ≠ some ticket := by
    rw [hbefore] at hc
    cases before with
    | nil =>
        obtain ⟨rfl, hempty⟩ := List.cons.inj hc
        exact .inl ⟨hempty.symm, rfl⟩
    | cons c' before =>
        obtain ⟨rfl, hrest⟩ := List.cons.inj hc
        rw [mem_ticketsOf_cons, not_or] at hticket
        exact .inr ⟨⟨before, hrest.symm, hticket.2⟩, hticket.1⟩
  cases h with
  | goesOn n' hkept hbacklog hp hd =>
      exact .inr ⟨⟨before, hbacklog.trans hbefore, hticket⟩, by simp⟩
  | passesOver n' key t hkept hbacklog hp hd =>
      exact (hnext hbacklog).imp And.left fun h => ⟨h.1, by simp⟩
  | answers n' c t finding hkept hasked hbacklog hp hd =>
      refine (hnext hbacklog).imp And.left fun h => ⟨h.1, fun f hf => ?_⟩
      obtain ⟨rfl, -⟩ : ticket = t ∧ f = finding := by simpa using hf
      exact h.2 hasked
  | stores n' key value expiration hkept hbacklog hp hd =>
      exact (hnext hbacklog).imp And.left fun h => ⟨h.1, by simp⟩
  | drops n' key value expiration e hkept hbacklog hp hd =>
      exact (hnext hbacklog).imp And.left fun h => ⟨h.1, by simp⟩

/-- A worker with nothing to run gets nothing. -/
theorem Moves.backlog_nil {acknowledged : Nat} {progress : Node × List Event}
    (h : n.Moves acknowledged progress) (hempty : n.backlog = []) : progress.1.backlog = [] := by
  cases h with
  | goesOn n' hkept hbacklog hp hd => exact hbacklog.trans hempty
  | _ => simp_all

/-- A worker only makes room. -/
theorem Advances.isFull (h : n.Advances wanted n') (hfull : n.isFull = false)
    (hkept : n.Kept n') : n'.isFull = false := by
  have hqueue : n'.queue.length ≤ n.queue.length := by
    cases h with
    | takes hworker =>
        unfold takeNext
        cases hq : n.queue with
        | nil => simp [hq]
        | cons c rest =>
            cases c with
            | get key ticket => cases hw : wanted ticket <;> simp [hw]
            | _ => simp
    | finishes c finding => cases c <;> cases finding <;> exact le_rfl
    | fails c e => cases c <;> exact le_rfl
    | _ => exact le_rfl
  simp only [Node.isFull, hkept.started, hkept.capacity, Bool.and_eq_false_iff,
    decide_eq_false_iff_not] at hfull ⊢
  exact hfull.imp_right fun hroom hle => hroom (hle.trans hqueue)

end Node

namespace Cluster

/-- All tickets that are in use have been given out. -/
structure Ticketed (c : Cluster) : Prop where
  queued : ∀ n ∈ c.nodes, ∀ ticket ∈ ticketsOf n.backlog, ticket < c.nextTicket
  arrived : ∀ p ∈ c.arrived, p.1 < c.nextTicket

variable {c c' : Cluster}

/-- An answer that is kept is one of the events. -/
theorem mem_kept {wanted : Ticket → Bool} {events : List Event} {p : Ticket × Finding}
    (h : p ∈ kept wanted events) : .answered p.1 p.2 ∈ events := by
  simp only [kept, List.mem_reverse, List.mem_filterMap] at h
  obtain ⟨event, hevent, hp⟩ := h
  cases event with
  | answered ticket finding =>
      cases hw : wanted ticket with
      | true =>
          obtain rfl : (ticket, finding) = p := by simpa [hw] using hp
          exact hevent
      | false => simp [hw] at hp
  | _ => simp at hp

end Cluster

namespace System

variable {s : System} {c' : Cluster} {st : Step} {given : Nat}

/-- What a step starts from is `Ticketed`. -/
theorem Base.ticketed {c : Cluster} (h : s.Base c) (hticketed : s.cluster.Ticketed) :
    c.Ticketed := by
  obtain rfl | ⟨-, rfl⟩ := h
  · exact hticketed
  · exact ⟨hticketed.queued, by simp [Cluster.forgetAnswers]⟩

/-- `Ticketed` goes through every step. -/
theorem Changes.ticketed (h : s.Changes st given c') (hticketed : s.cluster.Ticketed) :
    c'.Ticketed := by
  have hset {c : Cluster} (hc : c.Ticketed) {i : Nat} {n n' : Node} (hn : c.nodes[i]? = some n)
      (hn' : ∀ ticket ∈ ticketsOf n'.backlog, ticket ∈ ticketsOf n.backlog) :
      ∀ m ∈ c.nodes.set i n', ∀ ticket ∈ ticketsOf m.backlog, ticket < c.nextTicket := by
    intro m hm ticket hticket
    obtain hm | rfl := List.mem_or_eq_of_mem_set hm
    · exact hc.queued m hm ticket hticket
    · exact hc.queued n (List.mem_of_getElem? hn) ticket (hn' ticket hticket)
  cases h with
  | queues _ c _ base hasked =>
      have hc := base.ticketed hticketed
      refine ⟨fun n' hn' ticket hticket => ?_, fun p hp => ?_⟩
      · obtain ⟨i, hi', rfl⟩ := List.getElem_of_mem hn'
        have hi : i < c.nodes.length := hasked.nodes.length_eq ▸ hi'
        obtain hold | hgiven := Node.ticketsOf_queued (hasked.nodes.get hi hi') ticket hticket
        · exact (hc.queued _ (List.getElem_mem hi) ticket hold).trans_le hasked.tickets
        · exact hgiven
      · exact (hc.arrived p (hasked.arrived ▸ hp)).trans_le hasked.tickets
  | writes _ c i n n' key value expiration base running hn htaken =>
      have hc := base.ticketed hticketed
      refine ⟨hset hc hn fun ticket hticket => ?_, hc.arrived⟩
      rw [Node.submitWrite_eq] at htaken
      exact (Node.ticketsOf_submit htaken ticket hticket).resolve_right (by simp [Command.ticket?])
  | loses _ c base => exact ⟨(base.ticketed hticketed).queued, (base.ticketed hticketed).arrived⟩
  | stops unixSeconds c base running =>
      have hc := base.ticketed hticketed
      refine ⟨fun m hm => ?_, hc.arrived⟩
      obtain ⟨n, hn, rfl⟩ := List.mem_map.mp hm
      exact hc.queued n hn
  | aborts _ i n hn hruns =>
      exact ⟨hset hticketed hn (by simp [Node.abort, Node.backlog, Node.inHand, ticketsOf]),
        hticketed.arrived⟩
  | works i n step hn =>
      obtain ⟨hqueued, hanswered⟩ := (n.advance_moves s.wants step).tickets
      refine ⟨hset hticketed hn hqueued, fun p hp => ?_⟩
      obtain hp | hp := List.mem_append.mp hp
      · exact hticketed.queued n (List.mem_of_getElem? hn) p.1
          (hanswered p.1 p.2 (Cluster.mem_kept hp))
      · exact hticketed.arrived p hp
  | closes i n hn => exact ⟨hset hticketed hn fun ticket hticket => hticket, hticketed.arrived⟩

/-- Every client that a new one becomes is `Ticketed`. -/
theorem ticketed_after {c : Cluster} {settings : RemoteSettings}
    (hc : Cluster.create settings = .ok c) (steps : List Step) :
    (System.after { cluster := c } steps).cluster.Ticketed := by
  have hstart : c.Ticketed := by
    unfold Cluster.create at hc
    split at hc
    · contradiction
    · obtain rfl := Except.ok.inj hc
      refine ⟨fun n hn => ?_, by simp⟩
      obtain ⟨address, -, rfl⟩ := List.mem_map.mp hn
      simp [Node.create, Node.backlog, Node.inHand, ticketsOf]
  exact after_induction (P := fun s => s.cluster.Ticketed)
    (fun s st h => (s.changes_step st).ticketed h) hstart steps

end System

/-! ## Barriers -/

namespace Cluster

/-- How far a wait for writes has got. Nodes may be passed over if they are
`full`; `barrier` is the barrier that is waited for, with its node, and `left`
are the nodes to come. A node that is not passed over is to come and has room, or
has the barrier at its end, or has nothing left to run. -/
structure Drains (full : Nat → Prop) (barrier : Option (Nat × Ticket)) (left : List Nat)
    (c : Cluster) : Prop where
  opened : ∀ n ∈ c.nodes, n.closed = false ∧ n.isGone = false
  nodes : ∀ (i : Nat) (n : Node), c.nodes[i]? = some n → ¬full i →
    i ∈ left ∧ n.isFull = false ∨
      (∃ ticket, barrier = some (i, ticket) ∧ ticket ∉ c.arrived.map (·.1) ∧ n.IsBarred ticket) ∨
        n.backlog = []
  single : ∀ i ticket, barrier = some (i, ticket) → ∀ (j : Nat) (n : Node), c.nodes[j]? = some n →
    j ≠ i → ticket ∉ ticketsOf n.backlog

variable {c c' : Cluster} {full : Nat → Prop} {left : List Nat} {i : Nat} {n n' : Node}

/-- A node that takes no barrier is passed over. -/
theorem Drains.skip {rest : List Nat} (h : c.Drains full none (i :: rest))
    (hi : ∀ n, c.nodes[i]? = some n → n.isFull = false → n.backlog = []) :
    c.Drains full none rest := by
  refine ⟨h.opened, fun j n hn hfull => ?_, h.single⟩
  obtain ⟨hj, hroom⟩ | hdone := h.nodes j n hn hfull
  · obtain rfl | hj := List.mem_cons.mp hj
    · exact .inr (.inr (hi n hn hroom))
    · exact .inl ⟨hj, hroom⟩
  · exact .inr hdone

/-- A barrier is queued on a node with room. -/
theorem Drains.bar {rest : List Nat} (h : c.Drains full none (i :: rest)) (hbooked : c.Booked)
    (hticketed : c.Ticketed) (hn : c.nodes[i]? = some n)
    (hqueued : n.submit (.barrier c.nextTicket) = .ok n') :
    { c with nodes := c.nodes.set i n', nextTicket := c.nextTicket + 1 }.Drains full
      (some (i, c.nextTicket)) rest := by
  have hmem := List.mem_of_getElem? hn
  have hfresh (m : Node) (hm : m ∈ c.nodes) : c.nextTicket ∉ ticketsOf m.backlog := fun hticket =>
    Nat.lt_irrefl _ (hticketed.queued m hm _ hticket)
  refine ⟨fun m hm => ?_, fun j m hm hfull => ?_, fun j ticket hj k m hm hk => ?_⟩
  · obtain hm | rfl := List.mem_or_eq_of_mem_set hm
    · exact h.opened m hm
    · exact ⟨(Node.submit_eq (hbooked.nodes n hmem).unstarted hqueued).2.2 ▸ (h.opened n hmem).1,
        (Node.isGone_submit hqueued).2⟩
  · obtain ⟨rfl, rfl⟩ | ⟨hne, hm⟩ := getElem?_set_cases hm
    · refine .inr (.inl ⟨c.nextTicket, rfl, fun hmem => ?_, n.backlog, ?_, hfresh n ‹_›⟩)
      · obtain ⟨p, hp, hticket⟩ := List.mem_map.mp hmem
        exact Nat.lt_irrefl _ (hticket ▸ hticketed.arrived p hp)
      · exact Node.backlog_submit (hbooked.nodes n ‹_›).unstarted hqueued
    · obtain ⟨hj, hroom⟩ | ⟨_, hnone, -⟩ | hempty := h.nodes j m hm hfull
      · exact .inl ⟨(List.mem_cons.mp hj).resolve_left hne, hroom⟩
      · contradiction
      · exact .inr (.inr hempty)
  · obtain ⟨rfl, rfl⟩ := Prod.mk.inj (Option.some.inj hj)
    obtain ⟨rfl, -⟩ | ⟨-, hm⟩ := getElem?_set_cases hm
    · contradiction
    · exact hfresh m (List.mem_of_getElem? hm)

/-- `awaitFrom` goes on to the next node that takes a barrier, and returns if there is
none. -/
theorem Drains.awaitFrom (h : c.Drains full none left) (hbooked : c.Booked)
    (hticketed : c.Ticketed) :
    (c.awaitFrom left).next = .inl .done ∧ (c.awaitFrom left).cluster.Drains full none [] ∨
      ∃ i ticket rest, (c.awaitFrom left).next = .inr (.awaitWrites i ticket rest) ∧
        (c.awaitFrom left).cluster.Drains full (some (i, ticket)) rest := by
  induction left with
  | nil => exact .inl ⟨rfl, h⟩
  | cons i rest ih =>
      unfold Cluster.awaitFrom
      split
      · rename_i hready
        obtain ⟨e, hrefused⟩ | ⟨n, n', hn, hqueued, htaken⟩ := submit_cases c i .barrier
        · rw [hrefused]
          refine ih (h.skip fun n hn hroom => ?_)
          -- A node with room would have taken the barrier.
          obtain ⟨hopen, hruns⟩ := h.opened n (List.mem_of_getElem? hn)
          obtain ⟨n', hqueued⟩ := Node.submit_of_room hopen hruns hroom (.barrier c.nextTicket)
          simp [submit, hn, hqueued] at hrefused
        · rw [htaken]
          exact .inr ⟨i, c.nextTicket, rest, rfl, h.bar hbooked hticketed hn hqueued⟩
      · rename_i hready
        refine ih (h.skip fun n hn _ => ?_)
        have hmem := List.mem_of_getElem? hn
        have hunstarted : n.isStarted = false := by
          simpa [hn, (h.opened n hmem).1] using hready
        have hidle : n.inHand = none := by
          cases hworker : n.worker <;> simp_all [Node.isStarted, Node.inHand]
        rw [Node.backlog_of_idle hidle, (hbooked.nodes n hmem).unstarted hunstarted]

/-- The barrier has been answered, so its node is drained. -/
theorem Drains.answered {ticket : Ticket} (h : c.Drains full (some (i, ticket)) left)
    {finding : Finding} (houtcome : c.outcome? false i ticket = some finding) :
    c.Drains full none left := by
  refine ⟨h.opened, fun j n hn hfull => ?_, by simp⟩
  obtain hleft | ⟨ticket', hbarrier, hmissing, -⟩ | hempty := h.nodes j n hn hfull
  · exact .inl hleft
  · obtain ⟨rfl, rfl⟩ := Prod.mk.inj (Option.some.inj hbarrier)
    have hruns := (h.opened n (List.mem_of_getElem? hn)).2
    have hnone : c.answer? ticket = none := by
      refine List.lookup_eq_none_iff.mpr fun p hp => bne_iff_ne.mpr fun heq => ?_
      exact hmissing (List.mem_map.mpr ⟨p, hp, heq.symm⟩)
    simp [outcome?, hnone, hn, hruns] at houtcome
  · exact .inr (.inr hempty)

/-- A worker takes a step, and `Drains` stays. -/
theorem Drains.work {barrier : Option (Nat × Ticket)} (h : c.Drains full barrier left)
    (hn : c.nodes[i]? = some n) (wanted : Ticket → Bool) (step : WorkerStep) :
    { c with
      nodes := c.nodes.set i (n.advance wanted step).1
      arrived := kept wanted (n.advance wanted step).2 ++ c.arrived }.Drains full barrier left := by
  have hmem := List.mem_of_getElem? hn
  obtain ⟨hopen, hruns⟩ := h.opened n hmem
  have hmoves := n.advance_moves wanted step
  have harrived {ticket : Ticket} (hold : ticket ∉ c.arrived.map (·.1))
      (hnew : ∀ finding, .answered ticket finding ∉ (n.advance wanted step).2) :
      ticket ∉ (kept wanted (n.advance wanted step).2 ++ c.arrived).map (·.1) := by
    intro hticket
    obtain ⟨p, hp, rfl⟩ := List.mem_map.mp hticket
    obtain hp | hp := List.mem_append.mp hp
    · exact hnew p.2 (mem_kept hp)
    · exact hold (List.mem_map.mpr ⟨p, hp, rfl⟩)
  refine ⟨fun m hm => ?_, fun j m hm hfull => ?_, fun k ticket hk j m hm hj => ?_⟩
  · obtain hm | rfl := List.mem_or_eq_of_mem_set hm
    · exact h.opened m hm
    · refine ⟨hmoves.kept.closed.trans hopen, ?_⟩
      exact ((n.advances_advance wanted step).runs hruns).resolve_right (by simp [hopen])
  · obtain ⟨rfl, rfl⟩ | ⟨hne, hm⟩ := getElem?_set_cases hm
    · obtain ⟨hj, hroom⟩ | ⟨ticket, hbarrier, hmissing, hbarred⟩ | hempty := h.nodes j n hn hfull
      · exact .inl ⟨hj, (n.advances_advance wanted step).isFull hroom hmoves.kept⟩
      · obtain hempty | ⟨hbarred, hnew⟩ := hmoves.barred hbarred
        · exact .inr (.inr hempty)
        · exact .inr (.inl ⟨ticket, hbarrier, harrived hmissing hnew, hbarred⟩)
      · exact .inr (.inr (hmoves.backlog_nil hempty))
    · refine (h.nodes j m hm hfull).imp_right (Or.imp_left ?_)
      rintro ⟨ticket, hbarrier, hmissing, hbarred⟩
      have hother := h.single j ticket hbarrier i n hn (Ne.symm hne)
      exact ⟨ticket, hbarrier,
        harrived hmissing fun finding hanswered => hother (hmoves.tickets.2 _ _ hanswered), hbarred⟩
  · obtain ⟨rfl, rfl⟩ | ⟨-, hm⟩ := getElem?_set_cases hm
    · exact fun hticket => h.single k ticket hk j n hn hj (hmoves.tickets.1 ticket hticket)
    · exact h.single k ticket hk j m hm hj

end Cluster

/-! ## The wait -/

namespace System

open Cluster (Call Progress Result Stage)

variable {s : System} {full : Nat → Prop} {others : List Progress}

/-- How far a call has got if it waits for writes. -/
def wait? : Call × Progress → Option Progress
  | (.awaitWrites, progress) => some progress
  | _ => none

/-- The waits for writes among calls under way. -/
def waitsIn (underway : List (Call × Progress)) : List Progress := underway.filterMap wait?

/-- A step that queues nothing beside a wait: a worker moves, the wait goes on, or
no node changes and no wait does. The `others` are waits that were under way
before it. -/
def IsQuiet (others : List Progress) (s : System) (st : Step) : Prop :=
  (∃ i step, st = .worker i step) ∨
    (∃ position late progress, st = .resume position late ∧
      s.underway[position]?.bind wait? = some progress ∧ progress ∉ others) ∨
    (s.step st).cluster.nodes = s.cluster.nodes ∧
      (waitsIn (s.step st).underway).Perm (waitsIn s.underway)

/-- Steps that queue nothing beside a wait: each of them `IsQuiet`. -/
def StaysQuiet (others : List Progress) (s : System) : List Step → Prop
  | [] => True
  | st :: steps => s.IsQuiet others st ∧ (s.step st).StaysQuiet others steps

/-- A wait for writes has returned, which leaves the `others`, or has got on. -/
def WaitsAt (full : Nat → Prop) (others waits : List Progress) (c : Cluster) : Prop :=
  waits.Perm others ∧ c.Drains full none [] ∨
    ∃ i ticket rest, waits.Perm (.waits (.awaitWrites i ticket rest) :: others) ∧
      c.Drains full (some (i, ticket)) rest

/-- A system in which a wait for writes has got on, beside `others`. -/
structure Draining (full : Nat → Prop) (others : List Progress) (s : System) : Prop where
  balanced : s.Balanced
  ticketed : s.cluster.Ticketed
  stage : WaitsAt full others (waitsIn s.underway) s.cluster

/-- A wait that goes on is under way again, or has returned. -/
theorem waitsIn_turned (stage : Stage) :
    (waitsIn (s.turned .awaitWrites stage).underway).Perm
      (stage.2.getRight?.toList ++ waitsIn s.underway) := by
  unfold turned
  cases stage.2 with
  | inl result => rfl
  | inr progress =>
      simp [waitsIn, List.filterMap_append, wait?]

/-- A wait that is taken up leaves the others behind. -/
theorem waitsIn_eraseIdx {underway : List (Call × Progress)} {position : Nat} {progress : Progress}
    (hw : underway[position]? = some (.awaitWrites, progress)) :
    (waitsIn underway).Perm (progress :: waitsIn (underway.eraseIdx position)) := by
  obtain ⟨hlt, hget⟩ := List.getElem?_eq_some_iff.mp hw
  have herased := (List.getElem_cons_eraseIdx_perm hlt).filterMap wait?
  simpa [waitsIn, hget, wait?] using herased.symm

/-- `WaitsAt` does not look at the counters. -/
theorem WaitsAt.of_nodes {others waits waits' : List Progress} {c c' : Cluster}
    (h : WaitsAt full others waits c) (hwaits : waits'.Perm waits) (hnodes : c'.nodes = c.nodes)
    (harrived : waits ≠ [] → c'.arrived = c.arrived) : WaitsAt full others waits' c' := by
  have hdrains {barrier : Option (Nat × Ticket)} {left : List Nat}
      (hd : c.Drains full barrier left) (hsame : barrier = none ∨ c'.arrived = c.arrived) :
      c'.Drains full barrier left := by
    refine ⟨hnodes ▸ hd.opened, fun i n hn hfull => ?_, hnodes ▸ hd.single⟩
    refine (hd.nodes i n (hnodes ▸ hn) hfull).imp_right (Or.imp_left ?_)
    rintro ⟨ticket, rfl, hmissing, hbarred⟩
    exact ⟨ticket, rfl, by rwa [hsame.resolve_left (by simp)], hbarred⟩
  obtain ⟨hreturned, hd⟩ | ⟨i, ticket, rest, hwaiting, hd⟩ := h
  · exact .inl ⟨hwaits.trans hreturned, hdrains hd (.inl rfl)⟩
  · have hsome : waits ≠ [] := fun hnone => by simp [hnone] at hwaiting
    exact .inr ⟨i, ticket, rest, hwaits.trans hwaiting, hdrains hd (.inr (harrived hsome))⟩

/-- `awaitFrom` brings the wait on to the next barrier, or to its end. -/
theorem WaitsAt.of_awaitFrom {waits : List Progress} {c : Cluster} {left : List Nat}
    (hd : c.Drains full none left) (hbooked : c.Booked) (hticketed : c.Ticketed)
    (hwaits : waits.Perm ((c.awaitFrom left).stage.2.getRight?.toList ++ others)) :
    WaitsAt full others waits (c.awaitFrom left).cluster := by
  obtain ⟨hnext, hdone⟩ | ⟨i, ticket, rest, hnext, hbarred⟩ := hd.awaitFrom hbooked hticketed
  · exact .inl ⟨by simpa [Cluster.Turn.stage, hnext] using hwaits, hdone⟩
  · exact .inr ⟨i, ticket, rest, by simpa [Cluster.Turn.stage, hnext] using hwaits, hbarred⟩

/-- The wait goes on, and keeps `Draining`. -/
theorem Draining.goOn (h : s.Draining full others) {position : Nat} {progress : Progress}
    (hw : s.underway[position]? = some (.awaitWrites, progress)) (hown : progress ∉ others)
    (late : Bool) :
    WaitsAt full others (waitsIn (s.step (.resume position late)).underway)
      (s.step (.resume position late)).cluster := by
  have hleft := waitsIn_eraseIdx hw
  obtain ⟨hreturned, -⟩ | ⟨i, ticket, rest, hwaiting, hd⟩ := h.stage
  · exact absurd ((hreturned.symm.trans hleft).mem_iff.mpr (by simp)) hown
  · have hall := hwaiting.symm.trans hleft
    obtain rfl | hother := List.mem_cons.mp (hall.mem_iff.mpr (List.mem_cons_self ..))
    · have hothers := hall.cons_inv
      have hgoOn : s.cluster.goOn late (.waits (.awaitWrites i ticket rest)) =
          (s.cluster.resume late (.awaitWrites i ticket rest)).stage := rfl
      rw [step_resume_some hw, cluster_turned, hgoOn]
      have hturned := (waitsIn_turned (s := { s with underway := s.underway.eraseIdx position })
        (s.cluster.resume late (.awaitWrites i ticket rest)).stage).trans
        (hothers.symm.append_left _)
      unfold Cluster.resume at hturned ⊢
      dsimp only at hturned ⊢
      cases houtcome : s.cluster.outcome? false i ticket with
      | none =>
          rw [houtcome] at hturned
          exact .inr ⟨i, ticket, rest, hturned, hd⟩
      | some finding =>
          rw [houtcome] at hturned
          exact .of_awaitFrom (hd.answered houtcome) h.balanced.booked h.ticketed hturned
    · exact absurd hother hown

/-- **One quiet step** keeps `Draining`. -/
theorem Draining.step (h : s.Draining full others) {st : Step} (hquiet : s.IsQuiet others st) :
    (s.step st).Draining full others := by
  refine ⟨h.balanced.step st, (s.changes_step st).ticketed h.ticketed, ?_⟩
  by_cases hworker : ∃ i step, st = .worker i step
  · obtain ⟨i, step, rfl⟩ := hworker
    cases hn : s.cluster.nodes[i]? with
    | none => exact (step_worker_none hn step).symm ▸ h.stage
    | some n =>
        rw [step_worker_some hn, Cluster.worked_eq]
        exact h.stage.imp (And.imp_right fun hd => hd.work hn s.wants step)
          fun ⟨j, ticket, rest, hone, hd⟩ => ⟨j, ticket, rest, hone, hd.work hn s.wants step⟩
  · obtain hmoves | ⟨position, late, progress, rfl, hwait, hown⟩ | ⟨hnodes, hwaits⟩ :=
      hquiet
    · exact absurd hmoves hworker
    · obtain ⟨⟨call, _⟩, hw, hcall⟩ := Option.bind_eq_some_iff.mp hwait
      cases call with
      | awaitWrites =>
          obtain rfl := Option.some.inj hcall
          exact h.goOn hw hown late
      | _ => contradiction
    · refine h.stage.of_nodes hwaits hnodes fun hsome => ?_
      refine (s.changes_step st).arrived (fun hidle => hsome (by simp [hidle, waitsIn])) ?_
      exact fun i step hst => hworker ⟨i, step, hst⟩

/-- **A quiet run** keeps `Draining`. -/
theorem Draining.after (h : s.Draining full others) {steps : List Step}
    (hquiet : s.StaysQuiet others steps) : (s.after steps).Draining full others := by
  induction steps generalizing s with
  | nil => exact h
  | cons st steps ih => exact ih (h.step hquiet.1) hquiet.2

/-- The wait starts. A node may be passed over only if its queue is full now. -/
theorem draining_start (hbalanced : s.Balanced) (hticketed : s.cluster.Ticketed)
    (hopen : ∀ n ∈ s.cluster.nodes, n.closed = false ∧ n.isGone = false)
    (unixSeconds : Int) :
    (s.step (.start unixSeconds .awaitWrites)).Draining
      (fun i => ∃ n, s.cluster.nodes[i]? = some n ∧ n.isFull = true) (waitsIn s.underway) := by
  refine ⟨hbalanced.step _, (s.changes_step _).ticketed hticketed, ?_⟩
  have hbegin : s.fresh.begin unixSeconds .awaitWrites =
      (s.fresh.awaitFrom s.fresh.positions).stage := rfl
  have hnodes : s.fresh.nodes = s.cluster.nodes := s.base_fresh.nodes
  have hd : s.fresh.Drains (fun i => ∃ n, s.cluster.nodes[i]? = some n ∧ n.isFull = true) none
      s.fresh.positions := by
    refine ⟨hnodes ▸ hopen, fun i n hn hroom => .inl ⟨?_, ?_⟩, by simp⟩
    · exact List.mem_range.mpr (List.getElem?_eq_some_iff.mp hn).1
    · by_contra hfull
      exact hroom ⟨n, hnodes ▸ hn, by simpa using hfull⟩
  have hbooked : s.fresh.Booked := (hbalanced.booked.asks s.asks_fresh).1
  rw [step, cluster_turned, hbegin]
  exact .of_awaitFrom hd hbooked (s.base_fresh.ticketed hticketed) (waitsIn_turned _)

/-- **What waiting for writes waits for.** After any run, on a client whose nodes
are open and their workers not ended, let a wait for writes start, and let nothing
be queued beside it. When it has returned, so that the waits under way are those
of before, every node whose queue was not full as it started has run all that was
queued on it, and no write is pending there; if no queue was full, no write is
pending at all. -/
theorem await_drains {settings : RemoteSettings} {c : Cluster}
    (hc : Cluster.create settings = .ok c) (before : List Step)
    (hopen : ∀ n ∈ (System.after { cluster := c } before).cluster.nodes,
      n.closed = false ∧ n.isGone = false)
    (unixSeconds : Int) (meanwhile : List Step)
    (hquiet : ((System.after { cluster := c } before).step
      (.start unixSeconds .awaitWrites)).StaysQuiet
        (waitsIn (System.after { cluster := c } before).underway) meanwhile)
    (hreturned : (waitsIn (((System.after { cluster := c } before).step
      (.start unixSeconds .awaitWrites)).after meanwhile).underway).Perm
        (waitsIn (System.after { cluster := c } before).underway)) :
    let s := System.after { cluster := c } before
    let s' := (s.step (.start unixSeconds .awaitWrites)).after meanwhile
    (∀ (i : Nat) (n : Node), s.cluster.nodes[i]? = some n → n.isFull = false →
      ∃ n', s'.cluster.nodes[i]? = some n' ∧ n'.backlog = [] ∧ n'.pendingWrites = 0) ∧
      ((∀ n ∈ s.cluster.nodes, n.isFull = false) → s'.cluster.pendingWrites = 0) := by
  intro s s'
  obtain ⟨hbooked, hunstored⟩ := Cluster.booked_create hc
  have hstart : Balanced { cluster := c } := ⟨hbooked, by simp, by simp [hunstored]⟩
  have hbalanced : s.Balanced := after_induction (fun _ st h => h.step st) hstart before
  have hdraining := (draining_start hbalanced (ticketed_after hc before) hopen
    unixSeconds).after hquiet
  obtain ⟨-, hd⟩ | ⟨i, ticket, rest, hone, -⟩ := hdraining.stage
  · have hdrained (i : Nat) (n' : Node) (hn' : s'.cluster.nodes[i]? = some n')
        (hroom : ¬∃ n, s.cluster.nodes[i]? = some n ∧ n.isFull = true) :
        n'.backlog = [] ∧ n'.pendingWrites = 0 := by
      obtain ⟨hnone, -⟩ | ⟨_, hnone, -⟩ | hempty := hd.nodes i n' hn' hroom
      · contradiction
      · contradiction
      · have hmem := List.mem_of_getElem? hn'
        have hpending := (hdraining.balanced.booked.nodes n' hmem).pending (hd.opened n' hmem).2
        exact ⟨hempty, by simp [hpending, hempty]⟩
    refine ⟨fun i n hn hroom => ?_, fun hroom => ?_⟩
    · have hlength : s'.cluster.nodes.length = s.cluster.nodes.length :=
        s.length_after (.start unixSeconds .awaitWrites :: meanwhile)
      have hi : i < s'.cluster.nodes.length := hlength ▸ (List.getElem?_eq_some_iff.mp hn).1
      have hn' := List.getElem?_eq_getElem hi
      refine ⟨_, hn', hdrained i _ hn' ?_⟩
      rintro ⟨m, hm, hfull⟩
      obtain rfl := Option.some.inj (hn.symm.trans hm)
      simp [hroom] at hfull
    · rw [Cluster.pendingWrites, Cluster.foldl_add_eq_sum]
      refine List.sum_eq_zero fun k hk => ?_
      obtain ⟨n', hn', rfl⟩ := List.mem_map.mp hk
      obtain ⟨i, hi, rfl⟩ := List.getElem_of_mem hn'
      refine (hdrained i _ (List.getElem?_eq_getElem hi) ?_).2
      rintro ⟨m, hm, hfull⟩
      simp [hroom m (List.mem_of_getElem? hm)] at hfull
  · exact absurd (hreturned.symm.trans hone).length_eq (by simp [s])

/-- A wait behind a write and a read. Both have run when it returns. -/
theorem await_drains_queued :
    let settings : RemoteSettings := ⟨[⟨"a", 1⟩], .ofSeconds 1, 4, none, none⟩
    let c : Cluster :=
      { timeout := settings.timeout, nodes := [Node.create settings ⟨"a", 1⟩] }
    let before : List Step := [.start 0 (.set "k" ⟨#[7]⟩ 0), .start 0 (.get "k")]
    let meanwhile : List Step :=
      [.worker 0 .take, .worker 0 (.dial .accepted), .worker 0 (.exchange (.status .stored)),
        .worker 0 .take, .worker 0 (.exchange (.values [])), .worker 0 .take, .resume 1 false]
    let s := System.after { cluster := c } before
    let s' := (s.step (.start 0 .awaitWrites)).after meanwhile
    s.cluster.pendingWrites = 1 ∧ s'.cluster.nodes.map Node.requests = [3] ∧
      s'.cluster.pendingWrites = 0 := by
  intro settings c before meanwhile s s'
  have hc : Cluster.create settings = .ok c := rfl
  have hopen : ∀ n ∈ s.cluster.nodes, n.closed = false ∧ n.isGone = false := by decide +kernel
  have halone : waitsIn s.underway = [] := List.isEmpty_iff.mp (by decide +kernel)
  have hwaits : (((s.step (.start 0 .awaitWrites)).after
      (meanwhile.take 6)).underway[1]?.bind wait?).isSome = true := by decide +kernel
  obtain ⟨progress, hwait⟩ := Option.isSome_iff_exists.mp hwaits
  simp only [meanwhile, List.take_succ_cons, List.take_zero, after_cons, after_nil] at hwait
  have hquiet : (s.step (.start 0 .awaitWrites)).StaysQuiet (waitsIn s.underway) meanwhile :=
    ⟨.inl ⟨0, _, rfl⟩, .inl ⟨0, _, rfl⟩, .inl ⟨0, _, rfl⟩, .inl ⟨0, _, rfl⟩, .inl ⟨0, _, rfl⟩,
      .inl ⟨0, _, rfl⟩, .inr (.inl ⟨1, false, progress, rfl, hwait, by simp [halone]⟩), trivial⟩
  have hreturned : (waitsIn s'.underway).Perm (waitsIn s.underway) :=
    .of_eq ((List.isEmpty_iff.mp (by decide +kernel)).trans halone.symm)
  have hroom : ∀ n ∈ s.cluster.nodes, n.isFull = false := by decide +kernel
  have hdrained := (await_drains hc before hopen 0 meanwhile hquiet hreturned).2 hroom
  exact ⟨by decide +kernel, by decide +kernel, hdrained⟩

/-- A queue that is full of one write. The wait for writes returns at once; the
write has not been taken from the queue, and is pending. -/
theorem await_passes_over_full_queue :
    let settings : RemoteSettings := ⟨[⟨"a", 1⟩], .ofSeconds 1, 1, none, none⟩
    let c : Cluster :=
      { timeout := settings.timeout, nodes := [Node.create settings ⟨"a", 1⟩] }
    let s := System.after { cluster := c } [.start 0 (.set "k" ⟨#[7]⟩ 0)]
    let s' := s.step (.start 0 .awaitWrites)
    s.cluster.nodes.map Node.isFull = [true] ∧ s'.underway.isEmpty = true ∧
      s'.cluster.nodes.map Node.requests = [0] ∧ s'.cluster.pendingWrites = 1 := by
  decide +kernel

end System

end CacheService.Remote
