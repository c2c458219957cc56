import CacheService.Remote.Cluster
import CacheService.Proofs.Remote.Worker

/-!
# CacheService.Proofs.Remote.Asks

What calls that do not write can do to nodes.

* `Node.Queued` and `Cluster.Queues` — calls that neither write nor stop the client only
  queue commands, each under a ticket of its own (`Cluster.queues_start`,
  `Cluster.queues_resume`).
* `Node.Asked` and `Cluster.Asks` — a stop besides closes nodes and gives workers up;
  none of these calls counts a lost write (`Cluster.asks_start`, `Cluster.asks_resume`).

Each part of a call has its lemma, named after the function, and calls are put together
from them with `Queues.trans` and `Asks.trans`.
-/

namespace CacheService.Remote

/-! ## Nodes -/

namespace Node

/-- A command is queued behind those there are, on a node that is open and whose worker
has not ended. A node that is not started has none. -/
theorem submit_eq {n n' : Node} {c : Command} (hn : n.isStarted = false → n.queue = [])
    (h : n.submit c = .ok n') :
    n.closed = false ∧ n.isGone = false ∧
      n' = { n with
        worker := if n.isStarted then n.worker else .resting, queue := n.queue ++ [c] } := by
  unfold submit at h
  cases hclosed : n.closed with
  | true => simp [hclosed] at h
  | false =>
      refine ⟨rfl, ?_⟩
      cases hw : n.worker with
      | gone => simp [hclosed, hw] at h
      | absent =>
          have hempty : n.queue = [] := hn (by simp [isStarted, hw])
          simpa [hclosed, hw, isGone, isStarted, hempty] using h.symm
      | _ =>
          simp only [hclosed, hw, Bool.false_eq_true, if_false] at h
          split at h
          · contradiction
          · simpa [hw, isGone, isStarted] using h.symm

/-- `submitWrite` is `submit` with one more write on the books. -/
theorem submitWrite_eq (n : Node) (key : String) (value : ByteArray) (expiration : Int) :
    n.submitWrite key value expiration =
      { n with pendingWrites := n.pendingWrites + 1 }.submit (.set key value expiration) := by
  unfold submitWrite
  split <;> simp_all

/-- A command that is queued comes last in the `backlog`. -/
theorem backlog_submit {n n' : Node} {c : Command} (hn : n.isStarted = false → n.queue = [])
    (h : n.submit c = .ok n') : n'.backlog = n.backlog ++ [c] := by
  obtain ⟨-, -, rfl⟩ := submit_eq hn h
  cases hw : n.worker <;> simp [backlog, inHand, isStarted, hw]

/-- `submit` leaves the books alone. -/
theorem books_submit {n n' : Node} {c : Command} (h : n.submit c = .ok n') :
    n'.pendingWrites = n.pendingWrites ∧ n'.droppedWrites = n.droppedWrites := by
  unfold submit at h
  grind

/-- Commands are queued only on workers that have not ended. -/
theorem isGone_submit {n n' : Node} {c : Command} (h : n.submit c = .ok n') :
    n.isGone = false ∧ n'.isGone = false := by
  unfold submit at h
  split at h
  · contradiction
  · split at h
    · contradiction
    · rename_i hworker
      obtain rfl := Except.ok.inj h
      simp [isGone, hworker]
    · rename_i hgone _
      split at h
      · contradiction
      · obtain rfl := Except.ok.inj h
        cases hworker : n.worker <;> simp_all [isGone]

/-- What calls that neither write nor stop can make of a node: they queue other
commands, under tickets that are given out meanwhile. -/
inductive Queued (first bound : Ticket) (n : Node) : Node → Prop
  | refl : Queued first bound n n
  | submit (m m' : Node) (c : Command) (ticket : Ticket) (before : Queued first bound n m)
      (asked : c.ticket? = some ticket) (given : first ≤ ticket ∧ ticket < bound)
      (queued : m.submit c = .ok m') : Queued first bound n m'

/-- The bounds on the tickets may be taken wider. -/
theorem Queued.mono {n m : Node} {first first' bound bound' : Ticket} (h : n.Queued first bound m)
    (hfirst : first' ≤ first) (hbound : bound ≤ bound') : n.Queued first' bound' m := by
  induction h with
  | refl => exact .refl
  | submit m m' c ticket _ hasked hgiven hqueued ih =>
      exact .submit m m' c ticket ih hasked
        ⟨hfirst.trans hgiven.1, hgiven.2.trans_le hbound⟩ hqueued

/-- `Queued` is transitive. -/
theorem Queued.trans {n m k : Node} {first bound : Ticket} (h : n.Queued first bound m)
    (h' : m.Queued first bound k) : n.Queued first bound k := by
  induction h' with
  | refl => exact h
  | submit m m' c ticket _ hasked hgiven hqueued ih =>
      exact .submit m m' c ticket ih hasked hgiven hqueued

/-- What calls that do not write can make of a node: they queue other commands, close it
and give its worker up. -/
inductive Asked (n : Node) : Node → Prop
  | refl : Asked n n
  | submit (m m' : Node) (c : Command) (before : Asked n m) (reads : c.isWrite = false)
      (queued : m.submit c = .ok m') : Asked n m'
  | close (m : Node) (before : Asked n m) : Asked n m.close
  | abort (m : Node) (before : Asked n m) : Asked n m.abort

/-- `Asked` is transitive. -/
theorem Asked.trans {n m k : Node} (h : n.Asked m) (h' : m.Asked k) : n.Asked k := by
  induction h' with
  | refl => exact h
  | submit m m' c _ hreads hqueued ih => exact .submit m m' c ih hreads hqueued
  | close m _ ih => exact .close m ih
  | abort m _ ih => exact .abort m ih

/-- Commands with a ticket are no writes. -/
theorem isWrite_of_ticket {c : Command} {ticket : Ticket} (h : c.ticket? = some ticket) :
    c.isWrite = false := by
  cases c with
  | set key value expiration => contradiction
  | _ => rfl

/-- `Queued` is a case of `Asked`. -/
theorem Queued.asked {n n' : Node} {first bound : Ticket} (h : n.Queued first bound n') :
    n.Asked n' := by
  induction h with
  | refl => exact .refl
  | submit m m' c ticket _ hasked _ hqueued ih =>
      exact .submit m m' c ih (isWrite_of_ticket hasked) hqueued

/-- What `submit`, `close` and giving up preserve, calls that do not write preserve. -/
theorem Asked.preserves {P : Node → Prop} {n n' : Node} (h : n.Asked n')
    (hsubmit : ∀ m m' c, c.isWrite = false → m.submit c = .ok m' → P m → P m')
    (hclose : ∀ m, P m → P m.close) (habort : ∀ m, P m → P m.abort) (hn : P n) : P n' := by
  induction h with
  | refl => exact hn
  | submit m m' c _ hreads hqueued ih => exact hsubmit m m' c hreads hqueued ih
  | close m _ ih => exact hclose m ih
  | abort m _ ih => exact habort m ih

end Node

/-! ## Clients -/

namespace Cluster

section Lists

variable {α : Type} {R : α → α → Prop}

/-- A transitive relation is so on lists, element by element. -/
theorem forall₂_trans {l l' l'' : List α} (h : List.Forall₂ R l l') (h' : List.Forall₂ R l' l'')
    (htrans : ∀ a b c, R a b → R b c → R a c) : List.Forall₂ R l l'' := by
  induction h generalizing l'' with
  | nil => exact h'
  | cons hab _ ih =>
      cases h' with
      | cons hbc hrest => exact .cons (htrans _ _ _ hab hbc) (ih hrest)

/-- Changing one element relates the lists as it relates the elements. -/
theorem forall₂_set (hrefl : ∀ a, R a a) {l : List α} {i : Nat} {a b : α} (hi : l[i]? = some a)
    (hab : R a b) : List.Forall₂ R l (l.set i b) := by
  induction l generalizing i with
  | nil => exact .nil
  | cons x l ih =>
      cases i with
      | zero =>
          obtain rfl : x = a := by simpa using hi
          exact .cons hab (List.forall₂_same.mpr fun y _ => hrefl y)
      | succ i => exact .cons (hrefl x) (ih (by simpa using hi))

theorem forall₂_modify (hrefl : ∀ a, R a a) {f : α → α} (hf : ∀ a, R a (f a)) (l : List α)
    (i : Nat) : List.Forall₂ R l (l.modify i f) := by
  rw [List.modify_eq_set_getElem?]
  cases hi : l[i]? with
  | none => exact List.forall₂_same.mpr fun a _ => hrefl a
  | some a => exact forall₂_set hrefl hi (hf a)

/-- Changing one summand changes the sum by what it was and what it is. -/
theorem sum_map_set (f : α → Nat) {l : List α} {i : Nat} {a : α} (hi : l[i]? = some a) (b : α) :
    ((l.set i b).map f).sum + f a = (l.map f).sum + f b := by
  induction l generalizing i with
  | nil => simp at hi
  | cons x l ih =>
      cases i with
      | zero =>
          obtain rfl : x = a := by simpa using hi
          simp only [List.set_cons_zero, List.map_cons, List.sum_cons]
          omega
      | succ i =>
          have hrest := ih (by simpa using hi)
          simp only [List.set_cons_succ, List.map_cons, List.sum_cons]
          omega

/-- An element of a list that has been `set` is the new one or one that was there. -/
theorem getElem?_set_cases {l : List α} {i j : Nat} {a b : α} (h : (l.set i a)[j]? = some b) :
    j = i ∧ b = a ∨ j ≠ i ∧ l[j]? = some b := by
  rw [List.getElem?_set] at h
  split at h
  · subst i
    split at h
    · exact .inl ⟨rfl, (Option.some.inj h).symm⟩
    · contradiction
  · exact .inr ⟨Ne.symm ‹_›, h⟩

theorem getElem?_set_of_some {l : List α} {i : Nat} {a b : α} (h : l[i]? = some a) :
    (l.set i b)[i]? = some b := by
  rw [List.getElem?_set_self (List.getElem?_eq_some_iff.mp h).1]

end Lists

namespace Turn

@[simp] theorem cluster_returned (c : Cluster) (r : Result) (notices : List Notice) :
    (returned c r notices).cluster = c := rfl

@[simp] theorem cluster_waits (c : Cluster) (w : Waiting) (notices : List Notice) :
    (waits c w notices).cluster = c := rfl

end Turn

/-- What calls that do not write can make of a client: every node is `Node.Asked`. -/
structure Asks (c c' : Cluster) : Prop where
  droppedWrites : c'.droppedWrites = c.droppedWrites
  nodes : List.Forall₂ Node.Asked c.nodes c'.nodes

/-- What calls that neither write nor stop can make of a client: every node is
`Node.Queued`. -/
structure Queues (c c' : Cluster) : Prop where
  droppedWrites : c'.droppedWrites = c.droppedWrites
  stopped : c'.stopped = c.stopped
  arrived : c'.arrived = c.arrived
  tickets : c.nextTicket ≤ c'.nextTicket
  nodes : List.Forall₂ (Node.Queued c.nextTicket c'.nextTicket) c.nodes c'.nodes

variable {c c' c'' : Cluster}

/-- `Asks` for a client whose nodes are as they were. -/
theorem Asks.of_nodes (hdropped : c'.droppedWrites = c.droppedWrites)
    (hnodes : c'.nodes = c.nodes) :
    c.Asks c' :=
  ⟨hdropped, hnodes ▸ List.forall₂_same.mpr fun _ _ => .refl⟩

theorem Asks.refl (c : Cluster) : c.Asks c := .of_nodes rfl rfl

/-- `Asks` is transitive. -/
theorem Asks.trans (h : c.Asks c') (h' : c'.Asks c'') : c.Asks c'' :=
  ⟨h'.droppedWrites.trans h.droppedWrites,
    forall₂_trans h.nodes h'.nodes fun _ _ _ => Node.Asked.trans⟩

/-- `Queues` for a client that has counted something. -/
theorem Queues.counted (c : Cluster) (hits misses timeouts errors : Nat) :
    c.Queues { c with hits, misses, timeouts, errors } :=
  ⟨rfl, rfl, rfl, le_rfl, List.forall₂_same.mpr fun _ _ => .refl⟩

theorem Queues.refl (c : Cluster) : c.Queues c := .counted c _ _ _ _

/-- `Queues` is transitive. -/
theorem Queues.trans (h : c.Queues c') (h' : c'.Queues c'') : c.Queues c'' :=
  ⟨h'.droppedWrites.trans h.droppedWrites, h'.stopped.trans h.stopped, h'.arrived.trans h.arrived,
    h.tickets.trans h'.tickets,
    forall₂_trans (h.nodes.imp fun _ _ hn => hn.mono le_rfl h'.tickets)
      (h'.nodes.imp fun _ _ hn => hn.mono h.tickets le_rfl) fun _ _ _ => Node.Queued.trans⟩

/-- `Queues` is a case of `Asks`. -/
theorem Queues.asks (h : c.Queues c') : c.Asks c' :=
  ⟨h.droppedWrites, h.nodes.imp fun _ _ => Node.Queued.asked⟩

/-! ### Parts of calls -/

/-- A command is queued under the next ticket, or nothing changes. -/
theorem submit_cases (c : Cluster) (i : Nat) (command : Ticket → Command) :
    (∃ e, c.submit i command = (c, .error e)) ∨
      ∃ n n', c.nodes[i]? = some n ∧ n.submit (command c.nextTicket) = .ok n' ∧
        c.submit i command =
          ({ c with nodes := c.nodes.set i n', nextTicket := c.nextTicket + 1 },
            .ok c.nextTicket) := by
  cases hn : c.nodes[i]? with
  | none => exact .inl ⟨.internal "no such node", by simp only [submit, hn]⟩
  | some n =>
      cases hqueued : n.submit (command c.nextTicket) with
      | error e => exact .inl ⟨e, by simp only [submit, hn, hqueued]⟩
      | ok n' => exact .inr ⟨n, n', rfl, hqueued, by simp only [submit, hn, hqueued]⟩

theorem queues_submit (c : Cluster) (i : Nat) {command : Ticket → Command}
    (hasked : ∀ ticket, (command ticket).ticket? = some ticket) :
    c.Queues (c.submit i command).1 := by
  obtain ⟨e, h⟩ | ⟨n, n', hn, hqueued, h⟩ := submit_cases c i command
  · rw [h]
    exact .refl c
  · rw [h]
    refine ⟨rfl, rfl, rfl, Nat.le_succ _, forall₂_set (fun _ => Node.Queued.refl) hn ?_⟩
    exact .submit n n' _ c.nextTicket .refl (hasked _) ⟨le_rfl, Nat.lt_succ_self _⟩ hqueued

/-- A command that is waited for is queued, or its failure is dealt with, unless
something has been stopped. -/
theorem queues_awaited (c : Cluster) (i : Nat) {command : Ticket → Command}
    (hasked : ∀ ticket, (command ticket).ticket? = some ticket) (wait : Ticket → Waiting)
    {failed : Cluster → CacheError → Turn}
    (hfailed : ∀ (c : Cluster) (e : CacheError), c.Queues (failed c e).cluster) :
    c.Queues (match c.submit i command with
      | (c, .ok ticket) => .waits c (wait ticket) []
      | (c, .error e) =>
        if e.isIllegalState then .returned c (.error e) [] else failed c e : Turn).cluster := by
  have hsubmit : c.Queues (c.submit i command).1 := queues_submit c i hasked
  rcases h : c.submit i command with ⟨c', e | ticket⟩
  · rw [h] at hsubmit
    cases he : e.isIllegalState with
    | true => simpa [he] using hsubmit
    | false => simpa [he] using hsubmit.trans (hfailed c' e)
  · rw [h] at hsubmit
    exact hsubmit

theorem queues_settleRead (c : Cluster) (key : String) (finding : Finding) :
    c.Queues (c.settleRead key finding).2.1 := by
  unfold settleRead
  cases finding with
  | ok value => cases value <;> exact .counted c _ _ _ _
  | error e =>
      dsimp only
      split <;> exact .counted c _ _ _ _

theorem queues_settleFailure (c : Cluster) (what target : String) (e : CacheError) :
    c.Queues (c.settleFailure what target e).1 := by
  unfold settleFailure
  split <;> exact .counted c _ _ _ _

theorem queues_settleFlush (c : Cluster) (i : Nat) (finding : Finding) :
    c.Queues (c.settleFlush i finding).1 := by
  cases finding with
  | ok value => exact .refl c
  | error e => exact queues_settleFailure c _ _ e

theorem queues_finishGet (c : Cluster) (key : String) (finding : Finding) :
    c.Queues (c.finishGet key finding).cluster := queues_settleRead c key finding

theorem queues_finishDelete (c : Cluster) (key : String) (i : Nat) (finding : Finding) :
    c.Queues (c.finishDelete key i finding).cluster := by
  cases finding with
  | ok value => exact .refl c
  | error e => exact queues_settleFailure c _ _ e

theorem queues_submitReads (c : Cluster) (keys : List String) :
    c.Queues (c.submitReads keys).1 := by
  induction keys generalizing c with
  | nil => exact .refl c
  | cons key keys ih =>
      unfold submitReads
      cases validateKey key with
      | error e =>
          have hmiss : c.Queues (c.missInvalid key e).1 := .counted c _ _ _ _
          exact hmiss.trans (ih _)
      | ok _ =>
          have hsubmit : c.Queues (c.submit (c.nodeOf key) (.get key)).1 :=
            queues_submit c _ fun _ => rfl
          exact hsubmit.trans (ih _)

theorem queues_settleReads (c : Cluster) (late : Bool) (found : Found) (reads : List PendingRead) :
    c.Queues (c.settleReads late found reads).cluster := by
  induction reads generalizing c found with
  | nil => exact .refl c
  | cons read reads ih =>
      have hsettle (finding : Finding) :=
        (queues_settleRead c read.key finding).trans
          (ih _ (addFound found read.key (c.settleRead read.key finding).1))
      unfold settleReads
      cases read.answer with
      | error e =>
          cases h : e.isIllegalState with
          | true => simpa [h] using .refl c
          | false => simpa [h] using hsettle (.error e)
      | ok ticket =>
          cases h : c.outcome? late read.node ticket with
          | some finding => simpa [h] using hsettle finding
          | none => simpa [h] using .refl c

theorem queues_flushFrom (c : Cluster) (positions : List Nat) :
    c.Queues (c.flushFrom positions).cluster := by
  induction positions generalizing c with
  | nil => exact .refl c
  | cons i rest ih =>
      refine queues_awaited c i (fun _ => rfl) (.clear i · rest) fun c e => ?_
      exact (queues_settleFlush c i (.error e)).trans (ih _)

theorem queues_awaitFrom (c : Cluster) (positions : List Nat) :
    c.Queues (c.awaitFrom positions).cluster := by
  induction positions generalizing c with
  | nil => exact .refl c
  | cons i rest ih =>
      have hsubmit : c.Queues (c.submit i .barrier).1 := queues_submit c i fun _ => rfl
      unfold awaitFrom
      split
      · rcases h : c.submit i .barrier with ⟨c', e | ticket⟩
        · rw [h] at hsubmit
          exact hsubmit.trans (ih _)
        · rw [h] at hsubmit
          exact hsubmit
      · exact ih c

/-- Waiting for workers to end does nothing to the client. -/
@[simp] theorem awaitEnds_cluster (c : Cluster) (positions : List Nat) :
    (c.awaitEnds positions).cluster = c := by
  induction positions with
  | nil => rfl
  | cons i rest ih =>
      unfold awaitEnds
      split
      · exact ih
      · rfl

theorem queues_startGet (c : Cluster) (key : String) : c.Queues (c.startGet key).cluster := by
  unfold startGet
  cases validateKey key with
  | error e => exact .counted c _ _ _ _
  | ok _ =>
      exact queues_awaited c _ (fun _ => rfl) (.get key _) fun c e =>
        queues_finishGet c key (.error e)

theorem queues_startDelete (c : Cluster) (key : String) : c.Queues (c.startDelete key).cluster := by
  unfold startDelete
  cases validateKey key with
  | error e => exact .refl c
  | ok _ =>
      exact queues_awaited c _ (fun _ => rfl) (.delete key _) fun c e =>
        queues_finishDelete c key _ (.error e)

theorem asks_startStop (c : Cluster) : c.Asks c.startStop.cluster := by
  unfold startStop
  split
  · exact .refl c
  · rw [awaitEnds_cluster]
    exact ⟨rfl, List.forall₂_map_right_iff.mpr (List.forall₂_same.mpr fun n _ => .close n .refl)⟩

/-! ### Calls -/

/-- A call that neither writes nor stops `Queues` commands. -/
theorem queues_start (c : Cluster) (unixSeconds : Int) {call : Call}
    (hcall : ∀ key value ttl, call ≠ .set key value ttl) (hruns : call ≠ .stop) :
    c.Queues (c.start unixSeconds call).cluster := by
  have hunlessStopped (turn : Turn) (h : c.Queues turn.cluster) :
      c.Queues (if c.stopped then .returned c (.error (.illegalState .remoteStopped)) []
        else turn : Turn).cluster := by
    split
    · exact .refl c
    · exact h
  cases call with
  | get key => exact hunlessStopped _ (queues_startGet c key)
  | getMany keys =>
      exact hunlessStopped _ ((queues_submitReads c keys).trans (queues_settleReads _ _ _ _))
  | set key value ttl => exact absurd rfl (hcall key value ttl)
  | delete key => exact hunlessStopped _ (queues_startDelete c key)
  | clear => exact hunlessStopped _ (queues_flushFrom c _)
  | stop => exact absurd rfl hruns
  | awaitWrites => exact queues_awaitFrom c _

/-- A call that is not a write leaves lost writes alone, and queues none: it `Asks`. -/
theorem asks_start (c : Cluster) (unixSeconds : Int) {call : Call}
    (hcall : ∀ key value ttl, call ≠ .set key value ttl) :
    c.Asks (c.start unixSeconds call).cluster := by
  cases call with
  | stop => exact asks_startStop c
  | _ => exact (queues_start c unixSeconds hcall (by simp)).asks

/-- A call that goes on `Queues` commands, unless it stops the client. -/
theorem queues_resume (c : Cluster) (late : Bool) {w : Waiting}
    (hruns : ∀ i rest, w ≠ .stop i rest) :
    c.Queues (c.resume late w).cluster := by
  cases w with
  | get key i ticket =>
      unfold resume
      cases h : c.outcome? late i ticket with
      | none => simpa [h] using .refl c
      | some finding => simpa [h] using queues_finishGet c key finding
  | getMany ticket reads found => exact queues_settleReads c late found reads
  | delete key i ticket =>
      unfold resume
      cases h : c.outcome? late i ticket with
      | none => simpa [h] using .refl c
      | some finding => simpa [h] using queues_finishDelete c key i finding
  | clear i ticket rest =>
      unfold resume
      cases h : c.outcome? late i ticket with
      | none => simpa [h] using .refl c
      | some finding =>
          simpa [h] using (queues_settleFlush c i finding).trans (queues_flushFrom _ rest)
  | awaitWrites i ticket rest =>
      unfold resume
      cases h : c.outcome? false i ticket with
      | none => simpa [h] using .refl c
      | some finding => simpa [h] using queues_awaitFrom c rest
  | stop i rest => exact absurd rfl (hruns i rest)

/-- A stop that goes on gives the worker that it waits for up if its time is up and the
worker has not ended. -/
theorem resume_stop (c : Cluster) (late : Bool) (i : Nat) (rest : List Nat) :
    (c.resume late (.stop i rest)).cluster =
      if (c.nodes[i]?.map Node.isGone).getD true ∨ late = false then c
      else { c with nodes := c.nodes.modify i Node.abort } := by
  unfold resume
  cases h : (c.nodes[i]?.map Node.isGone).getD true <;> cases late <;> simp [h]

/-- A call that goes on `Asks`; writes never wait. -/
theorem asks_resume (c : Cluster) (late : Bool) (w : Waiting) :
    c.Asks (c.resume late w).cluster := by
  cases w with
  | stop i rest =>
      rw [resume_stop]
      split
      · exact .refl c
      · exact ⟨rfl, forall₂_modify (fun _ => .refl) (fun n => .abort n .refl) c.nodes i⟩
  | _ => exact (queues_resume c late (by simp)).asks

end Cluster

end CacheService.Remote
