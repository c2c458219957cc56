import Mathlib.Algebra.Order.Ring.Nat
import Mathlib.Data.List.Forall2
import Mathlib.Logic.Function.Basic
import CacheService.Remote.Node

/-!
# CacheService.Proofs.Remote.Worker

The steps of a worker, one thing after the other, with what the network answers it.
Nothing is asked of the network: a server may answer anything, refuse, hang up or stay
silent, and the time limit of any wait may be up at any step.

* `Node.advance` — the node after a `WorkerStep`, and the events that others see;
  `Node.backlog` are the commands that have not run, the one in the worker's hands
  first.
* `Node.Moves` — what one step comes to for the commands and the books of the node,
  proved in `advance_moves`.
* `Node.Advances` — the ways in which a step can change the node at all
  (`advances_advance`), for invariants that do not look at the commands.
-/

namespace CacheService.Remote

/-- One thing that a worker does, with what the network answers it. -/
inductive WorkerStep
  | take
  | dial (outcome : Dial)
  | login (answer : Answer)
  | exchange (answer : Answer)
  /-- The time limit of what the worker waits for is up. -/
  | expire
  /-- A closed node's worker ends if nothing is left to do. -/
  | retire

namespace Node

/-- The command that the worker has taken and not finished. -/
def inHand (n : Node) : Option Command :=
  match n.worker with
  | .dialing c | .loggingIn c | .exchanging c => some c
  | .absent | .resting | .gone => none

/-- The commands that were queued and have not run, the one that is `inHand` first. -/
def backlog (n : Node) : List Command := n.inHand.toList ++ n.queue

/-- The node after a step of its worker, and what others see of it. A step for which the
worker is not in place does nothing. -/
def advance (n : Node) (wanted : Ticket → Bool) (step : WorkerStep) : Node × List Event :=
  match step, n.worker with
  | .take, .resting => n.takeNext wanted
  | .dial outcome, .dialing c => n.dialed c outcome
  | .login answer, .loggingIn c =>
    match n.credentials with
    | some login => n.loggedIn c login.user ((loginRequest login).read answer)
    | none => (n, [])
  | .exchange answer, .exchanging c =>
    match c.request? with
    | some request => n.exchanged c (request.read answer)
    | none => n.finish c (.ok none)
  | .expire, _ => n.expire
  | .retire, _ => (n.retire, [])
  | _, _ => (n, [])

/-- The answer of a server to a command that the worker reads in a step. -/
def heard (n : Node) (step : WorkerStep) : List (Command × Answer) :=
  match step, n.worker with
  | .exchange answer, .exchanging c => [(c, answer)]
  | _, _ => []

end Node

/-- Whether a command is a write and its answer says that it is stored. -/
def acknowledges (p : Command × Answer) : Bool := p.1.isWrite && p.2 = .status .stored

/-! ## What a step of a worker comes to -/

namespace Node

/-- What no step of a worker changes: where the node is, how it logs in, and how many
commands it holds. -/
structure Kept (n n' : Node) : Prop where
  address : n'.address = n.address
  credentials : n'.credentials = n.credentials
  timeout : n'.timeout = n.timeout
  capacity : n'.capacity = n.capacity
  closed : n'.closed = n.closed
  started : n'.isStarted = n.isStarted

/-- `Kept` is reflexive. -/
theorem Kept.refl (n : Node) : n.Kept n := ⟨rfl, rfl, rfl, rfl, rfl, rfl⟩

/-- What one step of a worker comes to, with the number of writes whose acknowledgement
it reads: it leaves its commands as they are, passes over a read, or is done with the
command that is next. -/
inductive Moves (n : Node) : (acknowledged : Nat) → Node × List Event → Prop
  | goesOn (n' : Node) (kept : n.Kept n') (backlog : n'.backlog = n.backlog)
      (pending : n'.pendingWrites = n.pendingWrites)
      (dropped : n'.droppedWrites = n.droppedWrites) :
      Moves n 0 (n', [])
  | passesOver (n' : Node) (key : String) (ticket : Ticket) (kept : n.Kept n')
      (backlog : n.backlog = .get key ticket :: n'.backlog)
      (pending : n'.pendingWrites = n.pendingWrites)
      (dropped : n'.droppedWrites = n.droppedWrites) :
      Moves n 0 (n', [])
  | answers (n' : Node) (c : Command) (ticket : Ticket) (finding : Finding) (kept : n.Kept n')
      (asked : c.ticket? = some ticket) (backlog : n.backlog = c :: n'.backlog)
      (pending : n'.pendingWrites = n.pendingWrites)
      (dropped : n'.droppedWrites = n.droppedWrites) :
      Moves n 0 (n', [.answered ticket finding])
  | stores (n' : Node) (key : String) (value : ByteArray) (expiration : Int) (kept : n.Kept n')
      (backlog : n.backlog = .set key value expiration :: n'.backlog)
      (pending : n'.pendingWrites = n.pendingWrites - 1)
      (dropped : n'.droppedWrites = n.droppedWrites) :
      Moves n 1 (n', [.stored key])
  | drops (n' : Node) (key : String) (value : ByteArray) (expiration : Int) (e : CacheError)
      (kept : n.Kept n') (backlog : n.backlog = .set key value expiration :: n'.backlog)
      (pending : n'.pendingWrites = n.pendingWrites - 1)
      (dropped : n'.droppedWrites = n.droppedWrites + 1) :
      Moves n 0 (n', [.dropped key e])

variable {n m : Node} {c : Command}

/-- The command that is `inHand` is the first of the `backlog`. -/
theorem backlog_of_inHand (h : n.inHand = some c) : n.backlog = c :: n.queue := by simp [backlog, h]

/-- With none `inHand`, the `backlog` is the queue. -/
theorem backlog_of_idle (h : n.inHand = none) : n.backlog = n.queue := by simp [backlog, h]

/-- A worker with a command in its hands has started. -/
theorem isStarted_of_inHand (h : n.inHand = some c) : n.isStarted = true := by
  cases hw : n.worker <;> simp_all [inHand, isStarted]

/-- `Moves` for a command in hand that is over, with the books as they are; a write must
have been acknowledged for that to be a success. -/
theorem moves_finish {finding : Finding} {acknowledged : Nat} (hhand : n.inHand = some c)
    (hkept : n.Kept m) (hqueue : m.queue = n.queue) (hpending : m.pendingWrites = n.pendingWrites)
    (hdropped : m.droppedWrites = n.droppedWrites)
    (hack : acknowledged = if c.isWrite && finding.toBool then 1 else 0) :
    n.Moves acknowledged (m.finish c finding) := by
  subst hack
  have hbacklog : n.backlog = c :: m.queue := hqueue ▸ backlog_of_inHand hhand
  have hstarted : true = n.isStarted := (isStarted_of_inHand hhand).symm
  -- Whatever the command is, what is left is the other node with a resting worker.
  have hkept (n' : Node) (ha : n'.address = m.address) (hc : n'.credentials = m.credentials)
      (ht : n'.timeout = m.timeout) (hp : n'.capacity = m.capacity) (hd : n'.closed = m.closed)
      (hs : n'.isStarted = true) : n.Kept n' :=
    ⟨ha.trans hkept.address, hc.trans hkept.credentials, ht.trans hkept.timeout,
      hp.trans hkept.capacity, hd.trans hkept.closed, hs.trans hstarted⟩
  cases c with
  | set key value expiration =>
      cases finding with
      | ok found =>
          exact .stores _ key value expiration (hkept _ rfl rfl rfl rfl rfl rfl) hbacklog
            (by rw [← hpending]) hdropped
      | error e =>
          exact .drops _ key value expiration e (hkept _ rfl rfl rfl rfl rfl rfl) hbacklog
            (by rw [← hpending]) (by rw [← hdropped])
  | _ =>
      exact .answers _ _ _ finding (hkept _ rfl rfl rfl rfl rfl rfl) rfl hbacklog hpending hdropped

/-- `Moves` for a command in hand that fails. -/
theorem moves_fail (hhand : n.inHand = some c) (e : CacheError) : n.Moves 0 (n.fail c e) :=
  moves_finish hhand ⟨rfl, rfl, rfl, rfl, rfl, rfl⟩ rfl rfl rfl (by simp [Except.toBool])

/-- `Moves` for a worker that takes its next command. -/
theorem moves_takeNext (hworker : n.worker = .resting) (wanted : Ticket → Bool) :
    n.Moves 0 (n.takeNext wanted) := by
  have hnext : n.backlog = n.queue := backlog_of_idle (by simp [inHand, hworker])
  unfold takeNext
  cases hqueue : n.queue with
  | nil => exact .goesOn n (.refl n) rfl rfl rfl
  | cons c rest =>
      rw [hqueue] at hnext
      let taken : Node := { n with queue := rest, requests := n.requests + 1 }
      let started : Node := { taken with worker := if n.linked then .exchanging c else .dialing c }
      have htaken : n.backlog = c :: taken.backlog := by
        rw [hnext, backlog_of_idle (by simp [taken, inHand, hworker])]
      have hstarted : n.Moves 0 (started, []) := by
        refine .goesOn started ⟨rfl, rfl, rfl, rfl, rfl, ?_⟩ ?_ rfl rfl
        · cases h : n.linked <;> simp [started, isStarted, hworker, h]
        · rw [hnext]
          exact backlog_of_inHand (by cases h : n.linked <;> simp [started, inHand, h])
      cases c with
      | barrier ticket =>
          exact .answers taken (.barrier ticket) ticket _ ⟨rfl, rfl, rfl, rfl, rfl, rfl⟩ rfl htaken
            rfl rfl
      | get key ticket =>
          cases hw : wanted ticket with
          | true => simpa [hw] using hstarted
          | false =>
              simpa [hw] using
                .passesOver taken key ticket ⟨rfl, rfl, rfl, rfl, rfl, rfl⟩ htaken rfl rfl
      | _ => exact hstarted

/-- A command that is taken is run on the connection there is; without one, a connection
is opened first. -/
theorem takeNext_cases (hworker : n.worker = .resting) (wanted : Ticket → Bool) :
    (n.takeNext wanted).1.linked = n.linked ∧
      ((n.takeNext wanted).1.worker = .resting ∨
        ∃ c, (n.takeNext wanted).1.worker = if n.linked then .exchanging c else .dialing c) := by
  unfold takeNext
  cases n.queue with
  | nil => exact ⟨rfl, .inl hworker⟩
  | cons c rest =>
      cases c with
      | barrier ticket => exact ⟨rfl, .inl hworker⟩
      | get key ticket =>
          cases hw : wanted ticket with
          | true => exact ⟨by simp [hw], .inr ⟨.get key ticket, by simp [hw]⟩⟩
          | false => exact ⟨by simp [hw], .inl (by simpa [hw] using hworker)⟩
      | set key value expiration => exact ⟨rfl, .inr ⟨_, rfl⟩⟩
      | delete key ticket => exact ⟨rfl, .inr ⟨_, rfl⟩⟩
      | flush ticket => exact ⟨rfl, .inr ⟨_, rfl⟩⟩

/-- `Moves` for a connection that is open or refused. -/
theorem moves_dialed (hworker : n.worker = .dialing c) (outcome : Dial) :
    n.Moves 0 (n.dialed c outcome) := by
  have hhand : n.inHand = some c := by simp [inHand, hworker]
  have hstarted : true = n.isStarted := (isStarted_of_inHand hhand).symm
  cases outcome with
  | accepted =>
      unfold dialed
      dsimp only
      split <;>
        exact .goesOn _ ⟨rfl, rfl, rfl, rfl, rfl, hstarted⟩ (backlog_of_inHand hhand).symm rfl rfl
  | refused reason => exact moves_fail hhand _
  | silence => exact moves_fail hhand _

/-- `Moves` for a login that is answered. -/
theorem moves_loggedIn (hworker : n.worker = .loggingIn c) (user : String) (reply : Reply) :
    n.Moves 0 (n.loggedIn c user reply) := by
  have hhand : n.inHand = some c := by simp [inHand, hworker]
  have hstarted : true = n.isStarted := (isStarted_of_inHand hhand).symm
  cases reply with
  | done =>
      exact .goesOn _ ⟨rfl, rfl, rfl, rfl, rfl, hstarted⟩ (backlog_of_inHand hhand).symm rfl rfl
  | timeout => exact moves_fail hhand _
  | fault fault => exact moves_fail hhand _
  | data value => exact moves_fail hhand _
  | absent => exact moves_fail hhand _

/-- The only regular answer to `Request.set` is that it is stored. -/
theorem read_set (key : String) (value : ByteArray) (expiration : Int) (answer : Answer) :
    (Request.set key value expiration).read answer = .done ∧ answer = .status .stored ∨
      answer ≠ .status .stored ∧ ((Request.set key value expiration).read answer = .timeout ∨
        ∃ fault, (Request.set key value expiration).read answer = .fault fault) := by
  cases answer with
  | status s => cases s <;> simp [Request.read]
  | values data => cases data with
    | nil => simp [Request.read]
    | cons value rest => cases rest <;> simp [Request.read]
  | _ => simp [Request.read]

/-- `Moves` for an answer to the command in hand. -/
theorem moves_exchanged (hworker : n.worker = .exchanging c) {request : Request}
    (hrequest : c.request? = some request) (answer : Answer) :
    n.Moves ([(c, answer)].countP acknowledges) (n.exchanged c (request.read answer)) := by
  have hhand : n.inHand = some c := by simp [inHand, hworker]
  cases hwrite : c.isWrite with
  | true =>
      obtain ⟨key, value, expiration, rfl⟩ :
          ∃ key value expiration, c = .set key value expiration := by
        cases c <;> simp_all [Command.isWrite]
      obtain rfl : Request.set key value expiration = request := Option.some.inj hrequest
      have hfail (h : answer ≠ .status .stored) (e : CacheError) :
          n.Moves ([(Command.set key value expiration, answer)].countP acknowledges)
            (n.fail (.set key value expiration) e) := by
        simpa [acknowledges, h] using moves_fail hhand e
      obtain ⟨hread, rfl⟩ | ⟨hanswer, hread | ⟨fault, hread⟩⟩ :=
        read_set key value expiration answer
      · rw [hread]
        show n.Moves 1 (n.finish (.set key value expiration) (.ok none))
        exact moves_finish hhand (.refl n) rfl rfl rfl rfl
      · rw [hread]
        exact hfail hanswer _
      · rw [hread]
        exact hfail hanswer _
  | false =>
      have hnone : [(c, answer)].countP acknowledges = 0 := by simp [acknowledges, hwrite]
      have hfinish (finding : Finding) : n.Moves 0 (n.finish c finding) :=
        moves_finish hhand (.refl n) rfl rfl rfl (by simp [hwrite])
      rw [hnone]
      cases request.read answer with
      | data value => exact hfinish _
      | absent => exact hfinish _
      | done => exact hfinish _
      | timeout => exact moves_fail hhand _
      | fault fault =>
          cases c with
          | delete key ticket => exact hfinish _
          | _ => exact moves_fail hhand _

/-- `Moves` for a time limit that is up. -/
theorem moves_expire (n : Node) : n.Moves 0 n.expire := by
  unfold expire
  cases hworker : n.worker with
  | dialing c => exact moves_fail (by simp [inHand, hworker]) _
  | loggingIn c => exact moves_fail (by simp [inHand, hworker]) _
  | exchanging c => exact moves_fail (by simp [inHand, hworker]) _
  | absent => exact .goesOn n (.refl n) rfl rfl rfl
  | resting => exact .goesOn n (.refl n) rfl rfl rfl
  | gone => exact .goesOn n (.refl n) rfl rfl rfl

/-- `Moves` for a worker that ends by itself. -/
theorem moves_retire (n : Node) : n.Moves 0 (n.retire, []) := by
  unfold retire
  cases hworker : n.worker with
  | resting =>
      by_cases h : n.closed ∧ n.queue.isEmpty
      · rw [if_pos h]
        exact .goesOn _ ⟨rfl, rfl, rfl, rfl, rfl, by simp [isStarted, hworker]⟩
          (by simp [backlog, inHand, disconnect, hworker]) rfl rfl
      · rw [if_neg h]
        exact .goesOn n (.refl n) rfl rfl rfl
  | _ => exact .goesOn n (.refl n) rfl rfl rfl

/-- **One step** of a worker, whatever the network answers it, is one of `Moves`. -/
theorem advance_moves (n : Node) (wanted : Ticket → Bool) (step : WorkerStep) :
    n.Moves ((n.heard step).countP acknowledges) (n.advance wanted step) := by
  have hidle : n.Moves 0 (n, []) := .goesOn n (.refl n) rfl rfl rfl
  cases step with
  | take =>
      cases hworker : n.worker with
      | resting => simpa [advance, heard, hworker] using moves_takeNext hworker wanted
      | _ => simpa [advance, heard, hworker] using hidle
  | dial outcome =>
      cases hworker : n.worker with
      | dialing c => simpa [advance, heard, hworker] using moves_dialed hworker outcome
      | _ => simpa [advance, heard, hworker] using hidle
  | login answer =>
      cases hworker : n.worker with
      | loggingIn c =>
          cases hlogin : n.credentials with
          | some login => simpa [advance, heard, hworker, hlogin] using moves_loggedIn hworker _ _
          | none => simpa [advance, heard, hworker, hlogin] using hidle
      | _ => simpa [advance, heard, hworker] using hidle
  | exchange answer =>
      cases hworker : n.worker with
      | exchanging c =>
          cases hrequest : c.request? with
          | some request =>
              simpa [advance, heard, hworker, hrequest] using
                moves_exchanged hworker hrequest answer
          | none =>
              have hwrite : c.isWrite = false := by
                cases c <;> simp_all [Command.request?, Command.isWrite]
              have hdone : n.Moves 0 (n.finish c (.ok none)) :=
                moves_finish (by simp [inHand, hworker]) (.refl n) rfl rfl rfl (by simp [hwrite])
              simpa [advance, heard, hworker, hrequest, acknowledges, hwrite] using hdone
      | _ => simpa [advance, heard, hworker] using hidle
  | expire => simpa [advance, heard] using moves_expire n
  | retire => simpa [advance, heard] using moves_retire n

/-- A worker that is not there does nothing in `advance`. -/
theorem advance_of_idle (h : n.isStarted = false ∨ n.isGone = true) (wanted : Ticket → Bool)
    (step : WorkerStep) : n.advance wanted step = (n, []) ∧ n.heard step = [] := by
  cases hw : n.worker <;> simp [isStarted, isGone, hw] at h
  all_goals cases step <;> simp [advance, heard, expire, retire, hw]

/-- `Moves` changes nothing that is `Kept`. -/
theorem Moves.kept {acknowledged : Nat} {progress : Node × List Event}
    (h : n.Moves acknowledged progress) : n.Kept progress.1 := by
  cases h <;> assumption

/-- The ways in which a step of a worker can change its node. -/
inductive Advances (n : Node) (wanted : Ticket → Bool) : Node → Prop
  | stays : Advances n wanted n
  | takes (worker : n.worker = .resting) : Advances n wanted (n.takeNext wanted).1
  | finishes (c : Command) (finding : Finding) : Advances n wanted (n.finish c finding).1
  | fails (c : Command) (e : CacheError) : Advances n wanted (n.fail c e).1
  | connects (c : Command) : Advances n wanted (n.connect c)
  | logsIn (c : Command) : Advances n wanted { n with worker := .loggingIn c }
  | ends (closed : n.closed = true) (idle : n.backlog = []) :
      Advances n wanted { n.disconnect with worker := .gone }

theorem advances_dialed (n : Node) (wanted : Ticket → Bool) (c : Command) (outcome : Dial) :
    n.Advances wanted (n.dialed c outcome).1 := by
  cases outcome with
  | accepted =>
      unfold dialed
      dsimp only
      split
      · exact .connects c
      · exact .logsIn c
  | refused reason => exact .fails c _
  | silence => exact .fails c _

theorem advances_loggedIn (n : Node) (wanted : Ticket → Bool) (c : Command) (user : String)
    (reply : Reply) : n.Advances wanted (n.loggedIn c user reply).1 := by
  cases reply with
  | done => exact .connects c
  | _ => exact .fails c _

theorem advances_exchanged (n : Node) (wanted : Ticket → Bool) (c : Command) (reply : Reply) :
    n.Advances wanted (n.exchanged c reply).1 := by
  cases reply with
  | fault fault =>
      cases c with
      | delete key ticket => exact .finishes _ _
      | _ => exact .fails _ _
  | timeout => exact .fails c _
  | _ => exact .finishes c _

theorem advances_retire (n : Node) (wanted : Ticket → Bool) : n.Advances wanted n.retire := by
  unfold retire
  cases hworker : n.worker with
  | resting =>
      by_cases hdone : n.closed ∧ n.queue.isEmpty
      · rw [if_pos hdone]
        exact .ends hdone.1 (by simpa [backlog, inHand, hworker] using hdone.2)
      · rw [if_neg hdone]
        exact .stays
  | _ => exact .stays

/-- A step of a worker is one of `Advances`. -/
theorem advances_advance (n : Node) (wanted : Ticket → Bool) (step : WorkerStep) :
    n.Advances wanted (n.advance wanted step).1 := by
  cases step with
  | take =>
      cases hworker : n.worker with
      | resting => simpa [advance, hworker] using .takes hworker
      | _ => simpa [advance, hworker] using .stays
  | dial outcome =>
      cases hworker : n.worker with
      | dialing c => simpa [advance, hworker] using n.advances_dialed wanted c outcome
      | _ => simpa [advance, hworker] using .stays
  | login answer =>
      cases hworker : n.worker with
      | loggingIn c =>
          cases hlogin : n.credentials with
          | none => simpa [advance, hworker, hlogin] using .stays
          | some login => simpa [advance, hworker, hlogin] using n.advances_loggedIn wanted c _ _
      | _ => simpa [advance, hworker] using .stays
  | exchange answer =>
      cases hworker : n.worker with
      | exchanging c =>
          cases hrequest : c.request? with
          | none => simpa [advance, hworker, hrequest] using .finishes c _
          | some request => simpa [advance, hworker, hrequest] using n.advances_exchanged wanted c _
      | _ => simpa [advance, hworker] using .stays
  | expire =>
      cases hworker : n.worker with
      | dialing c => simpa [advance, expire, hworker] using .fails c _
      | loggingIn c => simpa [advance, expire, hworker] using .fails c _
      | exchanging c => simpa [advance, expire, hworker] using .fails c _
      | _ => simpa [advance, expire, hworker] using .stays
  | retire => exact n.advances_retire wanted

/-- A worker that is done with a command goes on. -/
theorem isGone_finish (n : Node) (c : Command) (finding : Finding) :
    (n.finish c finding).1.isGone = false := by
  cases c <;> cases finding <;> rfl

/-- A worker ends by itself only when its node is closed and nothing is left to do. -/
theorem Advances.runs {wanted : Ticket → Bool} (h : n.Advances wanted m)
    (hruns : n.isGone = false) :
    m.isGone = false ∨
      n.closed = true ∧ n.backlog = [] ∧ m.pendingWrites = n.pendingWrites := by
  cases h with
  | stays => exact .inl hruns
  | takes hworker =>
      refine .inl ?_
      obtain ⟨-, hrests | ⟨c, hstarts⟩⟩ := takeNext_cases hworker wanted
      · simp [isGone, hrests]
      · cases hlinked : n.linked <;> simp [isGone, hstarts, hlinked]
  | finishes c finding => exact .inl (isGone_finish ..)
  | fails c e => exact .inl (isGone_finish ..)
  | connects c => exact .inl rfl
  | logsIn c => exact .inl rfl
  | ends hclosed hidle => exact .inr ⟨hclosed, hidle, rfl⟩

end Node

end CacheService.Remote
