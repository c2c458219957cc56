import Mathlib.Data.List.Induction
import CacheService.Proofs.Remote.Draining
import CacheService.Proofs.Remote.Following
import CacheService.Proofs.Remote.Lookups
import CacheService.Proofs.Remote.Stopping
import CacheService.Proofs.Remote.Wire

/-!
# CacheService.Proofs.Remote.Running

Clients that are not stopped. As long as neither the client nor one of its nodes is
stopped, no worker ends, and a step does one of two things to a node: it queues
commands, each under a ticket that is new or as the write that is just starting, or it
is a step of the node's worker.

* `System.Runs` — the systems that a new client comes to without `Step.close`. Their
  nodes log in with what the client was configured with (`Runs.credentials`).
* `System.Running` — what holds of such a system while the client is not stopped
  (`Runs.running`): the books of `Cluster.Booked` and `Cluster.Ticketed`, and workers
  that are all there.
* `System.Takes` — what a step does to one node, proved of every step in
  `Running.takes_step`. A command that is queued is one that `IsNew` allows.
-/

namespace CacheService.Remote

namespace Node

variable {n n' : Node}

/-- What is `Queued` by calls that neither write nor stop comes behind the `backlog`,
under tickets that are given out meanwhile. -/
theorem Booked.backlog_queued (h : n.Booked) {first bound : Ticket}
    (hqueued : n.Queued first bound n') :
    ∃ new, n'.backlog = n.backlog ++ new ∧
      ∀ c ∈ new, ∃ ticket, c.ticket? = some ticket ∧ first ≤ ticket := by
  induction hqueued with
  | refl => exact ⟨[], (List.append_nil _).symm, by simp⟩
  | submit m m' c ticket before hasked hgiven hqueued ih =>
      obtain ⟨new, hbacklog, hnew⟩ := ih
      refine ⟨new ++ [c], ?_, fun c' hc' => ?_⟩
      · rw [backlog_submit (h.asked before.asked).unstarted hqueued, hbacklog, List.append_assoc]
      · obtain hc' | hc' := List.mem_append.mp hc'
        · exact hnew c' hc'
        · obtain rfl := List.mem_singleton.mp hc'
          exact ⟨ticket, hasked, hgiven.1⟩

/-- A worker does not end when commands are queued. -/
theorem isGone_queued {first bound : Ticket} (h : n.Queued first bound n')
    (hruns : n.isGone = false) : n'.isGone = false := by
  cases h with
  | refl => exact hruns
  | submit m m' c ticket _ _ _ hqueued => exact (isGone_submit hqueued).2

/-- A node keeps its `credentials` when commands are queued. -/
theorem credentials_queued {first bound : Ticket} (h : n.Queued first bound n') :
    n'.credentials = n.credentials := by
  induction h with
  | refl => rfl
  | submit m m' c ticket _ _ _ hqueued ih => exact (spares_submit hqueued).credentials.trans ih

/-- A worker has `heard` answers only to the command in its hands. -/
theorem worker_of_heard {p : Command × Answer} {step : WorkerStep} (h : p ∈ n.heard step) :
    n.worker = .exchanging p.1 ∧ step = .exchange p.2 := by
  cases step with
  | exchange answer =>
      cases hworker : n.worker with
      | exchanging c =>
          obtain rfl : p = (c, answer) := by simpa [heard, hworker] using h
          exact ⟨rfl, rfl⟩
      | _ => simp [heard, hworker] at h
  | _ => simp [heard] at h

/-- The command in the hands of an `exchanging` worker is the first of the `backlog`. -/
theorem backlog_of_exchanging {c : Command} (h : n.worker = .exchanging c) :
    n.backlog = c :: n.queue := backlog_of_inHand (by simp [inHand, h])

/-- `Moves` leaves the `backlog` as it is, or takes the first command from it. -/
theorem Moves.backlog_cases {acknowledged : Nat} {progress : Node × List Event}
    (h : n.Moves acknowledged progress) :
    progress.1.backlog = n.backlog ∨ ∃ c, n.backlog = c :: progress.1.backlog := by
  cases h with
  | goesOn n' _ hbacklog _ _ => exact .inl hbacklog
  | passesOver n' _ _ _ hbacklog _ _ => exact .inr ⟨_, hbacklog⟩
  | answers n' _ _ _ _ _ hbacklog _ _ => exact .inr ⟨_, hbacklog⟩
  | stores n' _ _ _ _ hbacklog _ _ => exact .inr ⟨_, hbacklog⟩
  | drops n' _ _ _ _ _ hbacklog _ _ => exact .inr ⟨_, hbacklog⟩

end Node

/-- Only a stop waits for workers to end, so `isStop` tells it from other calls. -/
theorem Cluster.HasSettled.eq_stop {nodes : Nat} {call : Cluster.Call} {progress : Cluster.Progress}
    {os : List Outcome} (h : HasSettled nodes call progress os) (hstop : progress.isStop = true) :
    call = .stop := by
  obtain ⟨i, rest, rfl⟩ := System.eq_stop_of_isStop hstop
  cases call with
  | stop => rfl
  | _ => exact h.elim

namespace System

open Cluster (Call Progress Result Stage)

variable {s : System} {c c' : Cluster} {st : Step} {given : Nat}

/-- No step gives a ticket back. -/
theorem Changes.nextTicket (h : s.Changes st given c') :
    s.cluster.nextTicket ≤ c'.nextTicket := by
  cases h with
  | queues _ c _ base hasked => exact base.nextTicket ▸ hasked.tickets
  | writes _ c i n n' key value expiration base running hn htaken => exact base.nextTicket.ge
  | loses _ c base => exact base.nextTicket.ge
  | stops unixSeconds c base running => exact base.nextTicket.ge
  | _ => exact le_rfl

/-- Workers end only if something is stopped: with all queues open and no stop under
way, `isGone` stays `false`. -/
theorem Changes.living (h : s.Changes st given c')
    (hopened : ∀ n ∈ s.cluster.nodes, n.closed = false)
    (hstops : ∀ p ∈ s.underway, p.2.isStop = false)
    (hliving : ∀ n ∈ s.cluster.nodes, n.isGone = false) : ∀ n ∈ c'.nodes, n.isGone = false := by
  have hset {i : Nat} {n n' : Node} (hn' : n'.isGone = false) :
      ∀ m ∈ s.cluster.nodes.set i n', m.isGone = false := by
    intro m hm
    obtain hm | rfl := List.mem_or_eq_of_mem_set hm
    · exact hliving m hm
    · exact hn'
  cases h with
  | queues _ c _ base hasked =>
      intro n' hn'
      obtain ⟨i, hi', rfl⟩ := List.getElem_of_mem hn'
      have hi : i < c.nodes.length := hasked.nodes.length_eq ▸ hi'
      exact Node.isGone_queued (hasked.nodes.get hi hi')
        (hliving _ (base.nodes ▸ List.getElem_mem hi))
  | writes _ c i n n' key value expiration base running hn htaken =>
      rw [base.nodes]
      rw [Node.submitWrite_eq] at htaken
      exact hset (n := n) (Node.isGone_submit htaken).2
  | loses _ c base => exact base.nodes ▸ hliving
  | stops unixSeconds c base running =>
      intro m hm
      obtain ⟨n, hn, rfl⟩ := List.mem_map.mp hm
      exact hliving n (base.nodes ▸ hn)
  | aborts _ i n hn hruns hstopping =>
      obtain ⟨p, hp, hstop⟩ := hstopping
      rw [hstops p hp] at hstop
      contradiction
  | works i n step hn =>
      have hmem := List.mem_of_getElem? hn
      refine hset (n := n) ?_
      exact ((n.advances_advance s.wants step).runs (hliving n hmem)).resolve_right
        (by simp [hopened n hmem])
  | closes i n hn => exact hset (n := n) (hliving n (List.mem_of_getElem? hn))

/-- No step changes the `credentials` of a node. -/
theorem Changes.credentials {login : Option Credentials} (h : s.Changes st given c')
    (hlogin : ∀ n ∈ s.cluster.nodes, n.credentials = login) :
    ∀ n ∈ c'.nodes, n.credentials = login := by
  have hset {i : Nat} {n n' : Node} (hn : s.cluster.nodes[i]? = some n)
      (hn' : n'.credentials = n.credentials) :
      ∀ m ∈ s.cluster.nodes.set i n', m.credentials = login := by
    intro m hm
    obtain hm | rfl := List.mem_or_eq_of_mem_set hm
    · exact hlogin m hm
    · exact hn'.trans (hlogin n (List.mem_of_getElem? hn))
  cases h with
  | queues _ c _ base hasked =>
      intro n' hn'
      obtain ⟨i, hi', rfl⟩ := List.getElem_of_mem hn'
      have hi : i < c.nodes.length := hasked.nodes.length_eq ▸ hi'
      exact (Node.credentials_queued (hasked.nodes.get hi hi')).trans
        (hlogin _ (base.nodes ▸ List.getElem_mem hi))
  | writes _ c i n n' key value expiration base running hn htaken =>
      rw [base.nodes] at hn ⊢
      rw [Node.submitWrite_eq] at htaken
      exact hset hn (Node.spares_submit htaken).credentials
  | loses _ c base => exact base.nodes ▸ hlogin
  | stops unixSeconds c base running =>
      intro m hm
      obtain ⟨n, hn, rfl⟩ := List.mem_map.mp hm
      exact hlogin n (base.nodes ▸ hn)
  | aborts _ i n hn hruns hstopping => exact hset hn rfl
  | works i n step hn => exact hset hn (n.advance_moves s.wants step).kept.credentials
  | closes i n hn => exact hset hn rfl

/-- A system that the new client `c` has come to without a stop of a node of its own. -/
def Runs (c : Cluster) (s : System) : Prop :=
  ∃ steps, (∀ i, .close i ∉ steps) ∧ s = System.after { cluster := c } steps

/-- A system whose client is at work: neither it nor a node has been stopped. -/
structure Running (s : System) : Prop where
  booked : s.cluster.Booked
  ticketed : s.cluster.Ticketed
  /-- Answers have been heard under tickets that had been given out. -/
  heard : ∀ p ∈ s.answered, ∀ ticket, p.1.ticket? = some ticket → ticket < s.cluster.nextTicket
  opened : ∀ n ∈ s.cluster.nodes, n.closed = false ∧ n.isGone = false
  stops : ∀ p ∈ s.underway, p.2.isStop = false

/-- `Runs` goes on through further steps. -/
theorem Runs.after (h : Runs c s) {steps : List Step} (hsteps : ∀ i, .close i ∉ steps) :
    Runs c (s.after steps) := by
  obtain ⟨earlier, hearlier, rfl⟩ := h
  exact ⟨earlier ++ steps, fun i hi => (List.mem_append.mp hi).elim (hearlier i) (hsteps i),
    (after_append ..).symm⟩

/-- `Runs` goes on through one step. -/
theorem Runs.step (h : Runs c s) (hst : ∀ i, st ≠ .close i) : Runs c (s.step st) :=
  h.after fun i hi => hst i (List.mem_singleton.mp hi).symm

/-- Nothing is stopped before the client is: `stopped` is never taken back. -/
theorem running_of_step (h : (s.step st).cluster.stopped = false) : s.cluster.stopped = false := by
  cases hstopped : s.cluster.stopped with
  | false => rfl
  | true => exact ((s.changes_step st).stopped hstopped).symm.trans h

/-- A step hears answers only under tickets that have been given out. -/
theorem heard_step (hticketed : s.cluster.Ticketed)
    (hheard : ∀ p ∈ s.answered, ∀ ticket, p.1.ticket? = some ticket → ticket < s.cluster.nextTicket)
    (st : Step) : ∀ p ∈ (s.step st).answered, ∀ ticket, p.1.ticket? = some ticket →
      ticket < (s.step st).cluster.nextTicket := by
  intro p hp ticket hticket
  refine lt_of_lt_of_le ?_ (s.changes_step st).nextTicket
  by_cases hworker : ∃ i step, st = .worker i step
  · obtain ⟨i, step, rfl⟩ := hworker
    cases hn : s.cluster.nodes[i]? with
    | none => exact hheard p (step_worker_none hn step ▸ hp) ticket hticket
    | some n =>
        rw [step_worker_some hn] at hp
        obtain hp | hp := List.mem_append.mp hp
        · exact hheard p hp ticket hticket
        · refine hticketed.queued n (List.mem_of_getElem? hn) ticket ?_
          rw [Node.backlog_of_exchanging (Node.worker_of_heard hp).1]
          exact mem_ticketsOf_cons.mpr (.inl hticket)
  · have hsame := s.answered_step fun i step hst => hworker ⟨i, step, hst⟩
    exact hheard p (hsame ▸ hp) ticket hticket

section Client

variable {settings : RemoteSettings} (hc : Cluster.create settings = .ok c)
include hc

/-- Every system that a new client comes to is `Balanced`. -/
theorem balanced_after (steps : List Step) : (System.after { cluster := c } steps).Balanced := by
  obtain ⟨hbooked, hunstored⟩ := Cluster.booked_create hc
  have hstart : Balanced { cluster := c } := ⟨hbooked, by simp, by simp [hunstored]⟩
  exact after_induction (fun _ st h => h.step st) hstart steps

/-- A stop is under way only if the client is `stopped`. -/
theorem stops_after {steps : List Step}
    (hrunning : (System.after { cluster := c } steps).cluster.stopped = false) :
    ∀ p ∈ (System.after { cluster := c } steps).underway, p.2.isStop = false := by
  intro p hp
  cases hstop : p.2.isStop with
  | false => rfl
  | true =>
      have hrecorded := (recorded_create hc).1.journal (balanced_after hc []) steps
      obtain ⟨k, hk, rfl⟩ := List.getElem_of_mem hp
      have hsettled := hrecorded.underway.get hk (hrecorded.underway.length_eq ▸ hk)
      have hstopping := (stopping_create hc _).after fun i (hi : .close i ∈ steps) => hi
      obtain ⟨i, rest, -, hclosing⟩ := hstopping.underway _ hp (hsettled.eq_stop hstop)
      exact hclosing.stopped.symm.trans hrunning

/-- A new client never hears an answer under a ticket that is still to be given out. -/
theorem heard_after (steps : List Step) :
    ∀ p ∈ (System.after { cluster := c } steps).answered, ∀ ticket, p.1.ticket? = some ticket →
      ticket < (System.after { cluster := c } steps).cluster.nextTicket := by
  induction steps using List.reverseRecOn with
  | nil => simp
  | append_singleton steps st ih =>
      rw [after_append]
      exact heard_step (ticketed_after hc steps) ih st

/-- Without `Step.close` and a stop of the client, all queues stay open. -/
theorem opened_after {steps : List Step} (hsteps : ∀ i, .close i ∉ steps)
    (hrunning : (System.after { cluster := c } steps).cluster.stopped = false) :
    ∀ n ∈ (System.after { cluster := c } steps).cluster.nodes, n.closed = false := by
  intro n hn
  obtain ⟨i, hi, rfl⟩ := List.getElem_of_mem hn
  have hopened := ((stopping_create hc _).after fun i (hi : .close i ∈ steps) => hi).opened hrunning
  cases hclosed : (System.after { cluster := c } steps).cluster.nodes[i].closed with
  | false => rfl
  | true => exact absurd (hopened i _ (List.getElem?_eq_getElem hi) hclosed) (hsteps i)

/-- Nor do workers end. -/
theorem living_after {steps : List Step} (hsteps : ∀ i, .close i ∉ steps)
    (hrunning : (System.after { cluster := c } steps).cluster.stopped = false) :
    ∀ n ∈ (System.after { cluster := c } steps).cluster.nodes, n.isGone = false := by
  induction steps using List.reverseRecOn with
  | nil =>
      intro n hn
      obtain rfl := Cluster.eq_of_create hc
      obtain ⟨address, -, rfl⟩ := List.mem_map.mp hn
      rfl
  | append_singleton steps st ih =>
      rw [after_append] at hrunning ⊢
      have hbefore := running_of_step hrunning
      have hsteps' : ∀ i, .close i ∉ steps := fun i hi => hsteps i (List.mem_append_left _ hi)
      exact (changes_step _ st).living (opened_after hc hsteps' hbefore)
        (stops_after hc hbefore) (ih hsteps' hbefore)

/-- The nodes log in with the `credentials` of the client's settings. -/
theorem Runs.credentials (h : Runs c s) :
    ∀ n ∈ s.cluster.nodes, n.credentials = settings.credentials := by
  obtain ⟨steps, -, rfl⟩ := h
  refine after_induction (P := fun s => ∀ n ∈ s.cluster.nodes, n.credentials = settings.credentials)
    (fun s st h => (s.changes_step st).credentials h) (fun n hn => ?_) steps
  obtain rfl := Cluster.eq_of_create hc
  obtain ⟨address, -, rfl⟩ := List.mem_map.mp hn
  rfl

/-- **A client that is at work** is as `Running` says. -/
theorem Runs.running (h : Runs c s) (hrunning : s.cluster.stopped = false) : s.Running := by
  obtain ⟨steps, hsteps, rfl⟩ := h
  exact ⟨(balanced_after hc steps).booked, ticketed_after hc steps, heard_after hc steps,
    fun n hn => ⟨opened_after hc hsteps hrunning n hn, living_after hc hsteps hrunning n hn⟩,
    stops_after hc hrunning⟩

end Client

/-! ## What a step does to one node -/

/-- A command that is queued in a step: under a new ticket, or as the write that starts. -/
structure IsNew (s : System) (st : Step) (c : Command) : Prop where
  fresh : ∀ ticket, c.ticket? = some ticket → s.cluster.nextTicket ≤ ticket
  issued : ∀ key value expiration, c = .set key value expiration →
    ∃ unixSeconds ttl, st = .start unixSeconds (.set key value ttl)

/-- What a step does to a node of a client that is not stopped: the node gains commands
that are new, or its worker takes the step. -/
inductive Takes (s : System) (st : Step) (i : Nat) (n : Node) : Node → Prop
  | gains (n' : Node) (new : List Command) (backlog : n'.backlog = n.backlog ++ new)
      (news : ∀ c ∈ new, s.IsNew st c) (others : ∀ step, st ≠ .worker i step) : Takes s st i n n'
  | works (step : WorkerStep) (own : st = .worker i step) :
      Takes s st i n (n.advance s.wants step).1

/-- A step that is none of its worker queues commands on a node, each as `IsNew` says. -/
theorem Running.gains (h : s.Running) {i : Nat} {n : Node} (hn : s.cluster.nodes[i]? = some n)
    (hclose : ∀ j, st ≠ .close j) (hworker : ∀ j step, st ≠ .worker j step)
    (hrunning : (s.step st).cluster.stopped = false) :
    ∃ n' new, (s.step st).cluster.nodes[i]? = some n' ∧ n'.backlog = n.backlog ++ new ∧
      ∀ c ∈ new, s.IsNew st c := by
  have hsame : ∃ n' new, s.cluster.nodes[i]? = some n' ∧ n'.backlog = n.backlog ++ new ∧
      ∀ c ∈ new, s.IsNew st c := ⟨n, [], hn, (List.append_nil _).symm, by simp⟩
  have hbooked := h.booked.nodes n (List.mem_of_getElem? hn)
  have hchanges := s.changes_step st
  generalize (s.step st).cluster = c', s.abandons st = given at hchanges hrunning ⊢
  cases hchanges with
  | queues _ c _ base hasked =>
      obtain ⟨hi, rfl⟩ := List.getElem?_eq_some_iff.mp (base.nodes ▸ hn : c.nodes[i]? = some n)
      have hi' : i < c'.nodes.length := hasked.nodes.length_eq ▸ hi
      obtain ⟨new, hbacklog, hnew⟩ := hbooked.backlog_queued (hasked.nodes.get hi hi')
      refine ⟨_, new, List.getElem?_eq_getElem hi', hbacklog, fun c hc => ?_⟩
      obtain ⟨ticket, hasks, hgiven⟩ := hnew c hc
      refine ⟨fun ticket' hticket => ?_, fun key value expiration hset => ?_⟩
      · obtain rfl := Option.some.inj (hasks.symm.trans hticket)
        exact base.nextTicket ▸ hgiven
      · simp [hset, Command.ticket?] at hasks
  | writes _ c j m m' key value expiration base running hm htaken hissued =>
      rw [base.nodes] at hm ⊢
      by_cases hij : i = j
      · subst hij
        obtain rfl := Option.some.inj (hm.symm.trans hn)
        rw [Node.submitWrite_eq] at htaken
        have hbacklog : m'.backlog = m.backlog ++ [.set key value expiration] :=
          Node.backlog_submit (n := { m with pendingWrites := m.pendingWrites + 1 })
            hbooked.unstarted htaken
        refine ⟨m', [.set key value expiration], Cluster.getElem?_set_of_some hm, hbacklog,
          fun c hc => ?_⟩
        obtain rfl := List.mem_singleton.mp hc
        refine ⟨by simp [Command.ticket?], fun key' value' expiration' hset => ?_⟩
        obtain ⟨rfl, rfl, -⟩ := Command.set.inj hset
        exact hissued
      · simpa [List.getElem?_set_ne (Ne.symm hij)] using hsame
  | loses _ c base => exact base.nodes ▸ hsame
  | stops unixSeconds c base running => contradiction
  | aborts _ j m hm hruns hstopping =>
      obtain ⟨p, hp, hstop⟩ := hstopping
      rw [h.stops p hp] at hstop
      contradiction
  | works j m step hm => exact absurd rfl (hworker j step)
  | closes j m hm => exact absurd rfl (hclose j)

/-- **One step** of a system whose client is not stopped, for one node: what happens to
the node is described by `Takes`. -/
theorem Running.takes_step (h : s.Running) {i : Nat} {n : Node} (hn : s.cluster.nodes[i]? = some n)
    (hclose : ∀ j, st ≠ .close j) (hrunning : (s.step st).cluster.stopped = false) :
    ∃ n', (s.step st).cluster.nodes[i]? = some n' ∧ s.Takes st i n n' := by
  by_cases hworker : ∃ j step, st = .worker j step
  · obtain ⟨j, step, rfl⟩ := hworker
    have hstays (hij : i ≠ j) (hsame : (s.step (.worker j step)).cluster.nodes[i]? = some n) :
        ∃ n', (s.step (.worker j step)).cluster.nodes[i]? = some n' ∧
          s.Takes (.worker j step) i n n' := by
      refine ⟨n, hsame, .gains n [] (List.append_nil _).symm (by simp) fun step' hst => hij ?_⟩
      exact (Step.worker.inj hst).1.symm
    cases hm : s.cluster.nodes[j]? with
    | none =>
        refine hstays (fun hij => ?_) ?_
        · rw [hij, hm] at hn
          contradiction
        · rw [step_worker_none hm]
          exact hn
    | some m =>
        by_cases hij : i = j
        · subst hij
          obtain rfl := Option.some.inj (hm.symm.trans hn)
          rw [step_worker_some hm, Cluster.worked_eq]
          exact ⟨_, Cluster.getElem?_set_of_some hm, .works step rfl⟩
        · refine hstays hij ?_
          rw [step_worker_some hm, Cluster.worked_eq]
          exact (List.getElem?_set_ne (Ne.symm hij)).trans hn
  · obtain ⟨n', new, hn', hbacklog, hnew⟩ :=
      h.gains hn hclose (fun j step hst => hworker ⟨j, step, hst⟩) hrunning
    exact ⟨n', hn', .gains n' new hbacklog hnew fun step hst => hworker ⟨i, step, hst⟩⟩

end System

end CacheService.Remote
