import CacheService.Proofs.Remote.Running

/-!
# CacheService.Proofs.Remote.Flushing

A flush in the queue of a node, from the step in which it is queued to the one in
which its answer is read.

* `Node.advance_queued` — the worker runs the commands in front of the flush one
  by one, and then the flush: only an acknowledgement (`confirms`) makes it succeed.
* `Flushed` — where the flush has got to on its node. Once it is acknowledged, what
  the server stores is `spared`: it was queued behind the flush, or is the node's
  login (`LogsIn`), or the server has executed it belatedly.
* `System.Handed` — the same in a system of several nodes, and the flush is in no
  other queue. `System.Handed.step` keeps it along every step of anybody.
* `System.Awaited` — a call that waits for the flush finds the acknowledgement if,
  and only if, the worker has read one.

The servers are known by what they store (`System.Serves`), within the limits of
`System.Stores`: they may forget anything at any time, and they store what is being
sent to them (`Node.Sends`) or what they execute belatedly. A worker that has given a
request up drops the connection, but not what it has sent: the server may still
execute it, after a flush on the next connection. Which writes these are, and when,
is the parameter `belated` of this module and the ones above it.
-/

namespace CacheService.Remote

/-! ## One node -/

/-- Whether a command is the flush under `ticket` and its answer the acknowledgement. -/
def confirms (ticket : Ticket) : Command × Answer → Bool
  | (.flush given, answer) => given == ticket && answer = .ok
  | _ => false

/-- `confirms` picks one pair of a command and an answer. -/
theorem confirms_iff {ticket : Ticket} {p : Command × Answer} :
    confirms ticket p = true ↔ p = (.flush ticket, .ok) := by
  obtain ⟨c, answer⟩ := p
  cases c <;> simp [confirms]

/-- Answers to commands without the ticket confirm no flush. -/
theorem any_confirms_of_not_mem {ticket : Ticket} {heard : List (Command × Answer)}
    (h : ∀ p ∈ heard, p.1.ticket? ≠ some ticket) : heard.any (confirms ticket) = false :=
  List.any_eq_false.mpr fun p hp hconfirms => h p hp (confirms_iff.mp hconfirms ▸ rfl)

namespace Node

variable {n n' : Node} {ticket : Ticket}

/-- What a step comes to for a node whose next command is a flush: the flush is still to
be run, or it is answered. Only an acknowledgement (`confirms`) makes it succeed. -/
inductive RunsFlush (n : Node) (ticket : Ticket) (heard : List (Command × Answer)) :
    Node × List Event → Prop
  | goesOn (n' : Node) (backlog : n'.backlog = n.backlog)
      (read : heard.any (confirms ticket) = false) : RunsFlush n ticket heard (n', [])
  | answers (n' : Node) (finding : Finding) (backlog : n.backlog = .flush ticket :: n'.backlog)
      (read : finding.toBool = heard.any (confirms ticket)) :
      RunsFlush n ticket heard (n', [.answered ticket finding])

/-- A flush that fails has not been confirmed. -/
theorem runsFlush_fail {heard : List (Command × Answer)} (hhand : n.inHand = some (.flush ticket))
    (hheard : heard.any (confirms ticket) = false) (e : CacheError) :
    n.RunsFlush ticket heard (n.fail (.flush ticket) e) :=
  .answers (n.fail (.flush ticket) e).1 (.error e) (backlog_of_inHand hhand) hheard.symm

/-- The only regular answer to `Request.flushAll` is its acknowledgement. -/
theorem read_flushAll {answer : Answer} (h : answer ≠ .ok) :
    Request.flushAll.read answer = .timeout ∨
      ∃ fault, Request.flushAll.read answer = .fault fault := by
  cases answer <;> simp_all [Request.read]

/-- The answer to a flush that is being exchanged ends it, whatever it is. -/
theorem runsFlush_exchanged (hworker : n.worker = .exchanging (.flush ticket)) (answer : Answer) :
    n.RunsFlush ticket [(.flush ticket, answer)]
      (n.exchanged (.flush ticket) (Request.flushAll.read answer)) := by
  have hhand : n.inHand = some (.flush ticket) := by simp [inHand, hworker]
  by_cases hanswer : answer = .ok
  · subst hanswer
    exact .answers (n.finish (.flush ticket) (.ok none)).1 (.ok none) (backlog_of_inHand hhand)
      (by simp [confirms, Except.toBool])
  · have hread : [(Command.flush ticket, answer)].any (confirms ticket) = false := by
      simp [confirms, hanswer]
    obtain hreply | ⟨fault, hreply⟩ := read_flushAll hanswer
    · rw [hreply]
      exact runsFlush_fail hhand hread _
    · rw [hreply]
      exact runsFlush_fail hhand hread _

/-- Where nothing is heard and the backlog stays, the flush is still to be run. -/
theorem runsFlush_stays (n' : Node) (hbacklog : n'.backlog = n.backlog) :
    n.RunsFlush ticket [] (n', []) := .goesOn n' hbacklog rfl

/-- By `Node.connect` the flush goes out, and is still to be run. -/
theorem runsFlush_connect (hhand : n.inHand = some (.flush ticket)) :
    n.RunsFlush ticket [] (n.connect (.flush ticket), []) :=
  runsFlush_stays _ (backlog_of_inHand hhand).symm

/-- A resting worker may take the flush, which answers nothing yet. -/
theorem runsFlush_resting {later : List Command} (hworker : n.worker = .resting)
    (hqueue : n.queue = .flush ticket :: later) (wanted : Ticket → Bool) (step : WorkerStep) :
    n.RunsFlush ticket (n.heard step) (n.advance wanted step) := by
  cases step with
  | take =>
      have htaken : (n.takeNext wanted).1.backlog = n.backlog := by
        cases hlinked : n.linked <;> simp [takeNext, hworker, hqueue, backlog, inHand, hlinked]
      simpa [advance, heard, hworker, takeNext, hqueue] using runsFlush_stays _ htaken
  | retire => simpa [advance, heard, retire, hworker, hqueue] using runsFlush_stays n rfl
  | _ => simpa [advance, heard, expire, hworker] using runsFlush_stays n rfl

/-- A worker that dials for the flush fails with it, or goes on to the login or the
exchange. -/
theorem runsFlush_dialing (hworker : n.worker = .dialing (.flush ticket))
    (wanted : Ticket → Bool) (step : WorkerStep) :
    n.RunsFlush ticket (n.heard step) (n.advance wanted step) := by
  have hhand : n.inHand = some (.flush ticket) := by simp [inHand, hworker]
  cases step with
  | dial outcome =>
      cases outcome with
      | accepted =>
          cases hlogin : n.credentials with
          | none =>
              simpa [advance, heard, hworker, dialed, hlogin] using runsFlush_connect hhand
          | some login =>
              simpa [advance, heard, hworker, dialed, hlogin] using
                runsFlush_stays { n with worker := .loggingIn (.flush ticket) }
                  (backlog_of_inHand hhand).symm
      | refused reason =>
          simpa [advance, heard, hworker, dialed] using runsFlush_fail hhand rfl _
      | silence => simpa [advance, heard, hworker, dialed] using runsFlush_fail hhand rfl _
  | expire => simpa [advance, heard, expire, hworker] using runsFlush_fail hhand rfl _
  | _ => simpa [advance, heard, retire, hworker] using runsFlush_stays n rfl

/-- A worker that logs in for the flush fails with it, unless the login is taken. -/
theorem runsFlush_loggingIn (hworker : n.worker = .loggingIn (.flush ticket))
    (wanted : Ticket → Bool) (step : WorkerStep) :
    n.RunsFlush ticket (n.heard step) (n.advance wanted step) := by
  have hhand : n.inHand = some (.flush ticket) := by simp [inHand, hworker]
  cases step with
  | login answer =>
      cases hlogin : n.credentials with
      | none => simpa [advance, heard, hworker, hlogin] using runsFlush_stays n rfl
      | some login =>
          cases hreply : (loginRequest login).read answer with
          | done =>
              simpa [advance, heard, hworker, hlogin, loggedIn, hreply] using
                runsFlush_connect hhand
          | _ =>
              simpa [advance, heard, hworker, hlogin, loggedIn, hreply] using
                runsFlush_fail hhand rfl _
  | expire => simpa [advance, heard, expire, hworker] using runsFlush_fail hhand rfl _
  | _ => simpa [advance, heard, retire, hworker] using runsFlush_stays n rfl

/-- **The step** of a worker that comes to a flush is one of `RunsFlush`. -/
theorem advance_runsFlush {later : List Command} (hnext : n.backlog = .flush ticket :: later)
    (wanted : Ticket → Bool) (step : WorkerStep) :
    n.RunsFlush ticket (n.heard step) (n.advance wanted step) := by
  have hidle (h : n.isStarted = false ∨ n.isGone = true) :
      n.RunsFlush ticket (n.heard step) (n.advance wanted step) := by
    obtain ⟨hadvance, hheard⟩ := advance_of_idle h wanted step
    rw [hadvance, hheard]
    exact runsFlush_stays n rfl
  -- A command in hand is the first of the backlog, so it is the flush.
  have hsame {c : Command} (hhand : n.inHand = some c) : c = .flush ticket :=
    (List.cons.inj ((backlog_of_inHand hhand).symm.trans hnext)).1
  cases hworker : n.worker with
  | absent => exact hidle (.inl (by simp [isStarted, hworker]))
  | gone => exact hidle (.inr (by simp [isGone, hworker]))
  | resting =>
      have hqueue : n.queue = .flush ticket :: later := by
        simpa [backlog, inHand, hworker] using hnext
      exact runsFlush_resting hworker hqueue wanted step
  | dialing c =>
      obtain rfl := hsame (c := c) (by simp [inHand, hworker])
      exact runsFlush_dialing hworker wanted step
  | loggingIn c =>
      obtain rfl := hsame (c := c) (by simp [inHand, hworker])
      exact runsFlush_loggingIn hworker wanted step
  | exchanging c =>
      have hhand : n.inHand = some c := by simp [inHand, hworker]
      obtain rfl := hsame hhand
      cases step with
      | exchange answer =>
          simpa [advance, heard, hworker, Command.request?] using runsFlush_exchanged hworker answer
      | expire => simpa [advance, heard, expire, hworker] using runsFlush_fail hhand rfl _
      | _ => simpa [advance, heard, retire, hworker] using runsFlush_stays n rfl

/-- A step of a worker that does not come to the flush under a ticket: the flush is
neither answered nor confirmed. -/
structure Passes (n : Node) (ticket : Ticket) (step : WorkerStep) (progress : Node × List Event) :
    Prop where
  unanswered : ∀ finding, .answered ticket finding ∉ progress.2
  unconfirmed : (n.heard step).any (confirms ticket) = false

/-- `Passes` for a worker whose next command has another ticket. -/
theorem passes_advance (hnext : ∀ c rest, n.backlog = c :: rest → c.ticket? ≠ some ticket)
    (wanted : Ticket → Bool) (step : WorkerStep) :
    n.Passes ticket step (n.advance wanted step) := by
  refine ⟨fun finding hanswered => ?_, any_confirms_of_not_mem fun p hp => ?_⟩
  · have hmoves := n.advance_moves wanted step
    generalize n.advance wanted step = progress,
      (n.heard step).countP acknowledges = acknowledged at hmoves hanswered
    cases hmoves with
    | answers n' c given f hkept hasked hbacklog hp hd =>
        obtain ⟨rfl, -⟩ : ticket = given ∧ finding = f := by simpa using hanswered
        exact hnext c _ hbacklog hasked
    | _ => simp at hanswered
  · exact hnext p.1 _ (backlog_of_exchanging (worker_of_heard hp).1)

/-- A worker with a flush in its queue runs what comes before it, or answers it. -/
theorem advance_queued {before later : List Command}
    (hbacklog : n.backlog = before ++ .flush ticket :: later) (hbefore : ticket ∉ ticketsOf before)
    (wanted : Ticket → Bool) (step : WorkerStep) :
    (∃ before', (n.advance wanted step).1.backlog = before' ++ .flush ticket :: later ∧
        before' <:+ before ∧ n.Passes ticket step (n.advance wanted step)) ∨
      ∃ finding : Finding, (n.advance wanted step).1.backlog = later ∧
        (n.advance wanted step).2 = [.answered ticket finding] ∧
        finding.toBool = (n.heard step).any (confirms ticket) := by
  cases before with
  | nil =>
      have hruns := advance_runsFlush hbacklog wanted step
      generalize hprogress : n.advance wanted step = progress at hruns
      cases hruns with
      | goesOn n' hsame hread =>
          exact .inl ⟨[], hsame.trans hbacklog, List.suffix_rfl, by simp, hread⟩
      | answers n' finding hdone hread =>
          exact .inr ⟨finding, (List.cons.inj (hdone.symm.trans hbacklog)).2, rfl, hread⟩
  | cons c before =>
      rw [mem_ticketsOf_cons, not_or] at hbefore
      have hother : ∀ c' rest, n.backlog = c' :: rest → c'.ticket? ≠ some ticket := by
        intro c' rest hnext
        obtain rfl : c = c' := (List.cons.inj (hbacklog.symm.trans hnext)).1
        exact hbefore.1
      have hpasses := passes_advance hother wanted step
      obtain hsame | ⟨c', hdone⟩ := (n.advance_moves wanted step).backlog_cases
      · exact .inl ⟨c :: before, hsame.trans hbacklog, List.suffix_rfl, hpasses⟩
      · have hrest := (List.cons.inj (hdone.symm.trans hbacklog)).2
        exact .inl ⟨before, hrest, List.suffix_cons .., hpasses⟩

/-- `Passes` for a worker that has no command with the ticket. -/
theorem advance_missing (hmissing : ticket ∉ ticketsOf n.backlog) (wanted : Ticket → Bool)
    (step : WorkerStep) : n.Passes ticket step (n.advance wanted step) := by
  refine passes_advance (fun c rest hnext hticket => hmissing ?_) wanted step
  rw [hnext]
  exact mem_ticketsOf_cons.mpr (.inl hticket)

end Node

/-! ## One server -/

/-- Whether credentials go out as a value under a key. A login is a write like any
other (`Node.loginRequest`), which a server without login stores. -/
def LogsIn (credentials : Option Credentials) (key : String) (value : ByteArray) : Prop :=
  ∃ login ∈ credentials, Node.loginRequest login = .set key value 0

/-- What a worker may have stored in the step that it is taking: the write in its hands,
or its login (`LogsIn`). -/
inductive Node.Sends (n : Node) (key : String) (value : ByteArray) : Prop
  | write (expiration : Int) (worker : n.worker = .exchanging (.set key value expiration))
  | login (c : Command) (worker : n.worker = .loggingIn c) (logs : LogsIn n.credentials key value)

/-- Whether every write among some commands is one of those that are `spared`. -/
def WritesOf (spared : String → ByteArray → Prop) (commands : List Command) : Prop :=
  ∀ key value expiration, .set key value expiration ∈ commands → spared key value

/-- Where a flush has got to that was queued on a node, whose server stores some
values: it is to be run, with only writes behind it that are `spared`; or it is over,
and if it was acknowledged, every value there is `spared`. -/
inductive Flushed (spared : String → ByteArray → Prop) (acknowledged : Bool) (m : Contents)
    (ticket : Ticket) (n : Node) : Prop
  | queued (before later : List Command) (backlog : n.backlog = before ++ .flush ticket :: later)
      (first : ticket ∉ ticketsOf before) (last : ticket ∉ ticketsOf later)
      (writes : WritesOf spared later) (pending : acknowledged = false)
  | ended (missing : ticket ∉ ticketsOf n.backlog) (writes : WritesOf spared n.backlog)
      (cleared : acknowledged = true → ∀ key value, m key = some value → spared key value)

section Flushed

variable {spared belated : String → ByteArray → Prop} {acknowledged : Bool} {m m' : Contents}
  {ticket : Ticket} {n n' : Node}

/-- What the server of a node may store after a step: what it stored before, what is
just being sent to it (`Node.Sends`), and what it executes belatedly. -/
def Node.Keeps (n : Node) (belated : String → ByteArray → Prop) (m m' : Contents) : Prop :=
  ∀ key value, m' key = some value → m key = some value ∨ n.Sends key value ∨ belated key value

/-- Where everything that is there and everything that can come is `spared`, what is
there after a step is so too. -/
theorem Node.Keeps.of_spared (h : n.Keeps belated m m') (hwrites : WritesOf spared n.backlog)
    (hspares : ∀ key value, LogsIn n.credentials key value ∨ belated key value → spared key value)
    (hm : ∀ key value, m key = some value → spared key value) (key : String) (value : ByteArray)
    (hvalue : m' key = some value) : spared key value := by
  obtain hold | hsends | hlater := h key value hvalue
  · exact hm key value hold
  · cases hsends with
    | write expiration hworker =>
        refine hwrites key value expiration ?_
        rw [Node.backlog_of_exchanging hworker]
        exact List.mem_cons_self
    | login c hworker hlogs => exact hspares key value (.inl hlogs)
  · exact hspares key value (.inr hlater)

/-- `Flushed` stays while commands are queued behind the flush. -/
theorem Flushed.gains (h : Flushed spared acknowledged m ticket n) {new : List Command}
    (hbacklog : n'.backlog = n.backlog ++ new) (hfree : ticket ∉ ticketsOf new)
    (hwrites : WritesOf spared new) (hkeeps : n.Keeps belated m m')
    (hspares : acknowledged = true → ∀ key value,
      LogsIn n.credentials key value ∨ belated key value → spared key value) :
    Flushed spared acknowledged m' ticket n' := by
  have happend {commands : List Command} (hold : WritesOf spared commands) :
      WritesOf spared (commands ++ new) := fun key value expiration hmem =>
    (List.mem_append.mp hmem).elim (hold key value expiration) (hwrites key value expiration)
  cases h with
  | queued before later hqueued hbefore hlater hissued hpending =>
      refine .queued before (later ++ new) ?_ hbefore ?_ (happend hissued) hpending
      · rw [hbacklog, hqueued, List.append_assoc, List.cons_append]
      · rw [ticketsOf_append, List.mem_append, not_or]
        exact ⟨hlater, hfree⟩
  | ended hmissing hissued hcleared =>
      refine .ended ?_ (hbacklog ▸ happend hissued) fun hack =>
        hkeeps.of_spared hissued (hspares hack) (hcleared hack)
      rw [hbacklog, ticketsOf_append, List.mem_append, not_or]
      exact ⟨hmissing, hfree⟩

/-- `Flushed` goes through a step of the node's worker. -/
theorem Flushed.works (h : Flushed spared acknowledged m ticket n) (hkeeps : n.Keeps belated m m')
    {step : WorkerStep} (hcleared : n.worker = .exchanging (.flush ticket) → step = .exchange .ok →
      ∀ key value, m' key = some value → belated key value)
    (hspares : (acknowledged || (n.heard step).any (confirms ticket)) = true →
      ∀ key value, LogsIn n.credentials key value ∨ belated key value → spared key value)
    (wanted : Ticket → Bool) :
    Flushed spared (acknowledged || (n.heard step).any (confirms ticket)) m' ticket
      (n.advance wanted step).1 := by
  cases h with
  | queued before later hqueued hbefore hlater hissued hpending =>
      obtain ⟨before', hbacklog, hsuffix, hpasses⟩ | ⟨finding, hbacklog, -, -⟩ :=
        Node.advance_queued hqueued hbefore wanted step
      · refine .queued before' later hbacklog (fun hmem => hbefore ?_) hlater hissued ?_
        · exact (hsuffix.sublist.filterMap _).subset hmem
        · rw [hpending, hpasses.unconfirmed, Bool.or_false]
      · refine .ended (hbacklog ▸ hlater) (hbacklog ▸ hissued) fun hack key value hvalue => ?_
        have hspared := hspares hack key value
        rw [hpending, Bool.false_or] at hack
        obtain ⟨p, hheard, hconfirms⟩ := List.any_eq_true.mp hack
        obtain rfl := confirms_iff.mp hconfirms
        obtain ⟨hworker, rfl⟩ := Node.worker_of_heard hheard
        exact hspared (.inr (hcleared hworker rfl key value hvalue))
  | ended hmissing hissued hcleared =>
      have hpasses := Node.advance_missing hmissing wanted step
      have hmoves := n.advance_moves wanted step
      refine .ended (fun hmem => hmissing (hmoves.tickets.1 ticket hmem)) ?_ fun hack => ?_
      · intro key value expiration hmem
        refine hissued key value expiration ?_
        obtain hsame | ⟨c, hdone⟩ := hmoves.backlog_cases
        · exact hsame ▸ hmem
        · exact hdone ▸ List.mem_cons_of_mem c hmem
      · have hspared := hspares hack
        rw [hpasses.unconfirmed, Bool.or_false] at hack
        exact hkeeps.of_spared hissued hspared (hcleared hack)

end Flushed

/-! ## Systems -/

namespace System

open Cluster (Call Progress Result Stage)

/-- What the servers of the nodes may store after a step. A value comes in only while
its node's worker sends it (`Node.Sends`), or because the server of a node executes it
belatedly; once a flush is acknowledged, nothing else than that is left. Anything may be
forgotten at any time. -/
structure Stores (s : System) (st : Step) (belated : Nat → String → ByteArray → Prop)
    (stored stored' : Nat → Contents) : Prop where
  written : ∀ i key value, stored' i key = some value → stored i key = some value ∨
    (∃ n, s.cluster.nodes[i]? = some n ∧ n.Sends key value) ∨ belated i key value
  flushed : ∀ i n ticket, st = .worker i (.exchange .ok) → s.cluster.nodes[i]? = some n →
    n.worker = .exchanging (.flush ticket) → ∀ key value, stored' i key = some value →
      belated i key value

/-- What the servers may store after some steps, each of which is within the limits of
`Stores`. What they execute belatedly may depend on all that has happened until then. -/
def Serves (s : System) (belated : System → Nat → String → ByteArray → Prop)
    (stored : Nat → Contents) : List Step → (Nat → Contents) → Prop
  | [], stored' => stored' = stored
  | st :: steps, stored' =>
      ∃ between, s.Stores st (belated (s.step st)) stored between ∧
        (s.step st).Serves belated between steps stored'

/-- Whether a worker has read the acknowledgement of the flush under `ticket`. -/
def acknowledged (s : System) (ticket : Ticket) : Bool := s.answered.any (confirms ticket)

/-- A flush that has been queued on node `i`, and on no other, and has got as far there
as `Flushed` says. -/
structure Handed (spared : String → ByteArray → Prop) (s : System) (stored : Nat → Contents)
    (i : Nat) (ticket : Ticket) : Prop where
  given : ticket < s.cluster.nextTicket
  node : ∃ n, s.cluster.nodes[i]? = some n ∧
    Flushed spared (s.acknowledged ticket) (stored i) ticket n
  single : ∀ j n, s.cluster.nodes[j]? = some n → j ≠ i → ticket ∉ ticketsOf n.backlog

/-- What may come to a server in a step is `spared` by the flushes of all nodes: the
writes that start, the logins, and what a server executes belatedly once it has
acknowledged its flush. -/
structure Spares (s : System) (st : Step) (belated : Nat → String → ByteArray → Prop)
    (spared : Nat → Ticket → String → ByteArray → Prop) : Prop where
  issued : ∀ unixSeconds key value ttl, st = .start unixSeconds (.set key value ttl) →
    ∀ i ticket, spared i ticket key value
  logs : ∀ n ∈ s.cluster.nodes, ∀ key value, LogsIn n.credentials key value →
    ∀ i ticket, spared i ticket key value
  belated : ∀ i ticket, (s.step st).acknowledged ticket = true → ∀ key value, belated i key value →
    spared i ticket key value

variable {spared : Nat → Ticket → String → ByteArray → Prop}
  {belated : Nat → String → ByteArray → Prop}
  {s : System} {stored stored' : Nat → Contents} {i : Nat} {ticket : Ticket} {st : Step}

/-- What `Stores` says of all servers, for the server of one node. -/
theorem Stores.keeps (h : s.Stores st belated stored stored') {n : Node}
    (hn : s.cluster.nodes[i]? = some n) : n.Keeps (belated i) (stored i) (stored' i) := by
  intro key value hvalue
  refine (h.written i key value hvalue).imp_right (Or.imp_left ?_)
  rintro ⟨m, hm, hsends⟩
  obtain rfl := Option.some.inj (hm.symm.trans hn)
  exact hsends

/-- A step of a worker adds what it has `heard` to what is `acknowledged`. -/
theorem acknowledged_worker {n : Node} (hn : s.cluster.nodes[i]? = some n) (step : WorkerStep) :
    (s.step (.worker i step)).acknowledged ticket =
      (s.acknowledged ticket || (n.heard step).any (confirms ticket)) := by
  rw [acknowledged, step_worker_some hn, List.any_append, acknowledged]

/-- Only the worker of its node hears that a flush is `acknowledged`. -/
theorem Handed.acknowledged_step {left : String → ByteArray → Prop}
    (h : Handed left s stored i ticket)
    (hst : ∀ step, st ≠ .worker i step) :
    (s.step st).acknowledged ticket = s.acknowledged ticket := by
  by_cases hworker : ∃ j step, st = .worker j step
  · obtain ⟨j, step, rfl⟩ := hworker
    have hij : j ≠ i := fun hij => hst step (hij ▸ rfl)
    cases hm : s.cluster.nodes[j]? with
    | none => rw [step_worker_none hm]
    | some m =>
        have hpasses := Node.advance_missing (h.single j m hm hij) s.wants step
        rw [acknowledged_worker hm, hpasses.unconfirmed, Bool.or_false]
  · rw [acknowledged, acknowledged, s.answered_step fun j step hst => hworker ⟨j, step, hst⟩]

/-- Commands that are new (`IsNew`) have other tickets than those given out. -/
theorem IsNew.free {new : List Command} (h : ∀ c ∈ new, s.IsNew st c)
    (hticket : ticket < s.cluster.nextTicket) : ticket ∉ ticketsOf new := by
  intro hmem
  obtain ⟨c, hc, hasked⟩ := List.mem_filterMap.mp hmem
  exact absurd ((h c hc).fresh ticket hasked) (Nat.not_le.mpr hticket)

/-- What they write was issued in the step that queues them. -/
theorem IsNew.writesOf {new : List Command} (h : ∀ c ∈ new, s.IsNew st c)
    (hspares : s.Spares st belated spared) (i : Nat) (ticket : Ticket) :
    WritesOf (spared i ticket) new := by
  intro key value expiration hmem
  obtain ⟨unixSeconds, ttl, hst⟩ := (h _ hmem).issued key value expiration rfl
  exact hspares.issued unixSeconds key value ttl hst i ticket

/-- A flush that is queued under the next ticket is `Handed`. -/
theorem Running.handed (hs : s.Running) {n n' : Node} {s' : System}
    (hn : s.cluster.nodes[i]? = some n)
    (hqueued : n.submit (.flush s.cluster.nextTicket) = .ok n')
    (hnodes : s'.cluster.nodes = s.cluster.nodes.set i n')
    (hnext : s'.cluster.nextTicket = s.cluster.nextTicket + 1)
    (hanswered : s'.answered = s.answered) :
    s'.acknowledged s.cluster.nextTicket = false ∧
      Handed (spared i s.cluster.nextTicket) s' stored i s.cluster.nextTicket := by
  have hfree (m : Node) (hm : m ∈ s.cluster.nodes) :
      s.cluster.nextTicket ∉ ticketsOf m.backlog := fun hmem =>
    Nat.lt_irrefl _ (hs.ticketed.queued m hm _ hmem)
  have hunheard : s'.acknowledged s.cluster.nextTicket = false := by
    rw [acknowledged, hanswered]
    exact any_confirms_of_not_mem fun p hp hticket => Nat.lt_irrefl _ (hs.heard p hp _ hticket)
  have hmem := List.mem_of_getElem? hn
  have hbacklog := Node.backlog_submit (hs.booked.nodes n hmem).unstarted hqueued
  refine ⟨hunheard, hnext ▸ Nat.lt_succ_self _, ⟨n', ?_, ?_⟩, fun j m hm hji => ?_⟩
  · rw [hnodes, Cluster.getElem?_set_of_some hn]
  · exact .queued n.backlog [] hbacklog (hfree n hmem) (by simp [ticketsOf]) (by simp [WritesOf])
      hunheard
  · rw [hnodes, List.getElem?_set_ne (Ne.symm hji)] at hm
    exact hfree m (List.mem_of_getElem? hm)

/-- **One step** of a client that is not stopped keeps a flush `Handed`. -/
theorem Handed.step (h : Handed (spared i ticket) s stored i ticket) (hs : s.Running)
    (hclose : ∀ j, st ≠ .close j) (hrunning : (s.step st).cluster.stopped = false)
    (hspares : s.Spares st belated spared) (hstores : s.Stores st belated stored stored') :
    Handed (spared i ticket) (s.step st) stored' i ticket := by
  refine ⟨h.given.trans_le (s.changes_step st).nextTicket, ?_, fun j n' hn' hji => ?_⟩
  · obtain ⟨n, hn, hflushed⟩ := h.node
    obtain ⟨n', hn', htakes⟩ := hs.takes_step hn hclose hrunning
    have hcomes : (s.step st).acknowledged ticket = true → ∀ key value,
        LogsIn n.credentials key value ∨ belated i key value → spared i ticket key value :=
      fun hack key value hmay => hmay.elim
        (fun hlogs => hspares.logs n (List.mem_of_getElem? hn) key value hlogs i ticket)
        (hspares.belated i ticket hack key value)
    refine ⟨n', hn', ?_⟩
    cases htakes with
    | gains _ new hbacklog hnew hothers =>
        rw [h.acknowledged_step hothers] at hcomes ⊢
        exact hflushed.gains hbacklog (IsNew.free hnew h.given)
          (IsNew.writesOf hnew hspares i ticket)
          (hstores.keeps hn) hcomes
    | works step hown =>
        subst hown
        rw [acknowledged_worker hn] at hcomes ⊢
        refine hflushed.works (hstores.keeps hn) (fun hworker hstep => ?_) hcomes s.wants
        exact hstores.flushed i n ticket (hstep ▸ rfl) hn hworker
  · have hlength : (s.step st).cluster.nodes.length = s.cluster.nodes.length := length_after s [st]
    have hj : j < s.cluster.nodes.length := hlength ▸ (List.getElem?_eq_some_iff.mp hn').1
    have hn := List.getElem?_eq_getElem hj
    obtain ⟨m', hm', htakes⟩ := hs.takes_step hn hclose hrunning
    obtain rfl := Option.some.inj (hm'.symm.trans hn')
    have hfree := h.single j _ hn hji
    cases htakes with
    | gains _ new hbacklog hnew hothers =>
        rw [hbacklog, ticketsOf_append, List.mem_append, not_or]
        exact ⟨hfree, IsNew.free hnew h.given⟩
    | works step hown =>
        exact fun hmem => hfree ((Node.advance_moves _ s.wants step).tickets.1 ticket hmem)

/-! ### Waiting for the answer -/

/-- The answer under `ticket` that is there is an acknowledgement if one has been read. -/
def Awaited (s : System) (ticket : Ticket) : Prop :=
  (s.cluster.answer? ticket).any Except.toBool = s.acknowledged ticket

/-- Events that do not answer a ticket do not change what is found under it. -/
theorem lookup_kept {wanted : Ticket → Bool} {events : List Event}
    (arrived : List (Ticket × Finding))
    (h : ∀ finding, .answered ticket finding ∉ events) :
    (Cluster.kept wanted events ++ arrived).lookup ticket = arrived.lookup ticket := by
  rw [List.lookup_append, List.lookup_eq_none_iff.mpr, Option.none_or]
  intro p hp
  refine bne_iff_ne.mpr fun heq => h p.2 ?_
  rw [heq]
  exact Cluster.mem_kept hp

/-- A call that waits for the answer to a flush finds it once it is there: `Awaited`
goes through every step. -/
theorem Awaited.step {left : String → ByteArray → Prop} (h : s.Awaited ticket)
    (hhanded : Handed left s stored i ticket)
    (hwants : s.wants ticket = true) (hbusy : s.underway ≠ []) :
    (s.step st).Awaited ticket := by
  unfold Awaited at h ⊢
  by_cases hworker : ∃ j step, st = .worker j step
  · obtain ⟨j, step, rfl⟩ := hworker
    cases hm : s.cluster.nodes[j]? with
    | none => rwa [step_worker_none hm]
    | some m =>
        have hpassed (hpasses : m.Passes ticket step (m.advance s.wants step)) :
            ((s.step (.worker j step)).cluster.answer? ticket).any Except.toBool =
              (s.step (.worker j step)).acknowledged ticket := by
          rw [acknowledged_worker hm, hpasses.unconfirmed, Bool.or_false, ← h, step_worker_some hm,
            Cluster.worked_eq, Cluster.answer?, lookup_kept _ hpasses.unanswered, Cluster.answer?]
        by_cases hji : j = i
        · subst hji
          obtain ⟨n, hn, hflushed⟩ := hhanded.node
          obtain rfl := Option.some.inj (hm.symm.trans hn)
          cases hflushed with
          | queued before later hbacklog hbefore hlater hwrites hpending =>
              obtain ⟨-, -, -, hpasses⟩ | ⟨finding, -, hanswers, hread⟩ :=
                Node.advance_queued hbacklog hbefore s.wants step
              · exact hpassed hpasses
              · rw [acknowledged_worker hm, hpending, Bool.false_or, ← hread, step_worker_some hm,
                  Cluster.worked_eq, hanswers]
                simp [Cluster.answer?, Cluster.kept, hwants]
          | ended hmissing hwrites hcleared =>
              exact hpassed (Node.advance_missing hmissing s.wants step)
        · exact hpassed (Node.advance_missing (hhanded.single j m hm hji) s.wants step)
  · have hothers : ∀ j step, st ≠ .worker j step := fun j step hst => hworker ⟨j, step, hst⟩
    rw [Cluster.answer?, (s.changes_step st).arrived hbusy hothers, acknowledged,
      s.answered_step hothers]
    exact h

end System

end CacheService.Remote
