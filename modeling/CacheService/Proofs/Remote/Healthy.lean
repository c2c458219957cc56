import CacheService.Remote.Server
import CacheService.Proofs.Remote.Interleaving

/-!
# CacheService.Proofs.Remote.Healthy

Clients whose servers are well: each node has a server of its own, which takes
every connection and answers every command from its items. No time limit is up
and nothing is stopped. What is left open is the order in which a call and the
workers move.

A login goes out as a write (`Node.loginRequest`) before the first command of a
connection. A server that asks for a login takes it as one; a server that asks
for none stores it among its items like any other write (`Server.logIn`). What
the commands of a node meet at its server is therefore not what is stored there
as long as the node has still to connect: `Node.dataAt` is what will be.

* `Contents` — values by key; `Command.apply` and `Command.found` are the effect
  and the answer of a command on them, and `contents_execute` and
  `exchanged_execute` say that a server and a worker agree with these;
* `Healthy.serves` — what the next step of a worker comes to: it runs the command
  that is next on `Node.dataAt`, or comes closer to it;
* `Healthy.submit` — a healthy node takes every command that does not meet a full
  queue;
* `Deployment` — a client with its servers, and the `Move`s that it can make.
-/

namespace CacheService.Remote

/-! ## What commands do to the data of a server -/

/-- Values by key. -/
abbrev Contents := String → Option ByteArray

/-- What a server stores under each key, without deadlines. -/
def Server.contents (s : Server) : Contents := fun key => s.items[key]?.map (·.1)

/-- What a command makes of stored values. -/
def Command.apply (c : Command) (m : Contents) : Contents :=
  match c with
  | .set key value _ => Function.update m key (some value)
  | .delete key _ => Function.update m key none
  | .flush _ => fun _ => none
  | .get .. | .barrier _ => m

/-- The value that a command finds among stored values; only a read finds one. -/
def Command.found (c : Command) (m : Contents) : Option ByteArray :=
  match c with
  | .get key _ => m key
  | .set .. | .delete .. | .flush _ | .barrier _ => none

/-- The stored values after commands have run in order, by `Command.apply`. -/
def Contents.after (m : Contents) (commands : List Command) : Contents :=
  commands.foldl (fun m c => c.apply m) m

@[simp] theorem Contents.after_nil (m : Contents) : m.after [] = m := rfl

@[simp] theorem Contents.after_cons (m : Contents) (c : Command) (commands : List Command) :
    m.after (c :: commands) = (c.apply m).after commands := rfl

/-- Commands run one list after the other. -/
theorem Contents.after_append (m : Contents) (commands commands' : List Command) :
    m.after (commands ++ commands') = (m.after commands).after commands' := List.foldl_append ..

/-- What is stored after a command was stored before, or the command has written it. -/
theorem Command.apply_eq_some {c : Command} {m : Contents} {key : String} {value : ByteArray}
    (h : c.apply m key = some value) :
    m key = some value ∨ ∃ expiration, c = .set key value expiration := by
  cases c with
  | set written content expiration =>
      by_cases hkey : key = written
      · subst hkey
        obtain rfl : content = value := by simpa [apply] using h
        exact .inr ⟨expiration, rfl⟩
      · exact .inl (by simpa [apply, Function.update_of_ne hkey] using h)
  | delete dropped ticket =>
      by_cases hkey : key = dropped
      · simp [apply, hkey] at h
      · exact .inl (by simpa [apply, Function.update_of_ne hkey] using h)
  | flush ticket => simp [apply] at h
  | _ => exact .inl h

/-- A server runs a request as `Command.apply` says of its command. -/
theorem contents_execute (s : Server) {c : Command} {request : Request}
    (h : c.request? = some request) : (s.execute request).2.contents = c.apply s.contents := by
  cases c with
  | get key ticket =>
      obtain rfl := Option.some.inj h
      unfold Server.execute
      dsimp only
      split <;> rfl
  | set key value expiration =>
      obtain rfl := Option.some.inj h
      funext k
      simp only [Server.execute, Server.contents, Command.apply, Function.update_apply,
        Std.TreeMap.getElem?_insert, Std.LawfulEqCmp.compare_eq_iff_eq, eq_comm (a := key)]
      split <;> rfl
  | delete key ticket =>
      obtain rfl := Option.some.inj h
      funext k
      unfold Server.execute
      dsimp only
      split
      · simp only [Server.contents, Command.apply, Function.update_apply,
          Std.TreeMap.getElem?_erase, Std.LawfulEqCmp.compare_eq_iff_eq, eq_comm (a := key)]
        split <;> rfl
      · rename_i habsent
        simp only [Server.contents, Command.apply, Function.update_apply]
        split
        · rename_i hk
          rw [hk, Std.TreeMap.getElem?_eq_none_of_contains_eq_false (Bool.eq_false_iff.mpr habsent)]
          rfl
        · rfl
  | flush ticket =>
      obtain rfl := Option.some.inj h
      funext k
      simp [Server.execute, Server.contents, Command.apply]
  | barrier ticket => contradiction

/-- A server after the login of a node. One that asks for a login takes this one and
stores nothing; one that asks for none stores it like any other write. -/
def Server.logIn (s : Server) (login : Credentials) : Server :=
  match s.login with
  | some _ => s
  | none => (s.execute (Node.loginRequest login)).2

/-- The login is stored under the key `auth`. -/
theorem contents_logIn {s : Server} (h : s.login = none) (login : Credentials) :
    (s.logIn login).contents =
      Function.update s.contents "auth" (some (login.user ++ " " ++ login.password).toUTF8) := by
  simp only [Server.logIn, h]
  let write : Command := .set "auth" (login.user ++ " " ++ login.password).toUTF8 0
  exact contents_execute s (show write.request? = some (Node.loginRequest login) from rfl)

namespace Node

/-- The server after a node has connected to it, and logged in if it has a login
(`Server.logIn`). -/
def connectTo (n : Node) (s : Server) : Server := n.credentials.elim s s.logIn

/-- The values that the next command of a node runs on at its server. A node without a
connection connects first. -/
def dataAt (n : Node) (s : Server) : Contents :=
  if n.linked then s.contents else (n.connectTo s).contents

/-- With a connection, `dataAt` is what is stored. -/
theorem dataAt_of_linked {n : Node} (h : n.linked = true) (s : Server) : n.dataAt s = s.contents :=
  if_pos h

/-- Without one, it is what will be stored once the node has connected. -/
theorem dataAt_of_unlinked {n : Node} (h : n.linked = false) (s : Server) :
    n.dataAt s = (n.connectTo s).contents := if_neg (by simp [h])

/-- `dataAt` changes only with the login or the connection. -/
theorem dataAt_congr {n n' : Node} (hcredentials : n'.credentials = n.credentials)
    (hlinked : n'.linked = n.linked) : n'.dataAt = n.dataAt := by
  funext s
  simp only [dataAt, connectTo, hcredentials, hlinked]

/-- A command is over once a server has answered it, with what `Command.found` says. -/
theorem exchanged_execute (n : Node) (s : Server) {c : Command} {request : Request}
    (h : c.request? = some request) :
    n.exchanged c (request.read (s.execute request).1) = n.finish c (.ok (c.found s.contents)) := by
  cases c with
  | get key ticket =>
      obtain rfl := Option.some.inj h
      unfold Server.execute
      cases hitem : s.items[key]? with
      | none => simp [Request.read, exchanged, Command.found, Server.contents, hitem]
      | some item => simp [Request.read, exchanged, Command.found, Server.contents, hitem]
  | set key value expiration =>
      obtain rfl := Option.some.inj h
      rfl
  | delete key ticket =>
      obtain rfl := Option.some.inj h
      unfold Server.execute
      dsimp only
      split <;> rfl
  | flush ticket =>
      obtain rfl := Option.some.inj h
      rfl
  | barrier ticket => contradiction

/-! ## Workers -/

/-- The next step of a worker whose server is well, and the server after it. -/
def serve (n : Node) (s : Server) : WorkerStep × Server :=
  match n.worker with
  | .absent | .resting | .gone => (.take, s)
  | .dialing _ => (.dial .accepted, s)
  | .loggingIn _ => (.login (.status .stored), n.connectTo s)
  | .exchanging c =>
    match c.request? with
    | some request => (.exchange (s.execute request).1, (s.execute request).2)
    | none => (.exchange .ok, s)

/-- The worker has not ended. It connects only without a connection, logs in only where
there is a login, and runs its commands on a connection. -/
def IsSound (n : Node) : Prop :=
  match n.worker with
  | .gone => False
  | .dialing _ => n.linked = false
  | .loggingIn _ => n.linked = false ∧ n.credentials.isSome = true
  | .exchanging _ => n.linked = true
  | .absent | .resting => True

/-- A node that is open and whose worker `IsSound`, with a place in its queue. -/
structure Healthy (n : Node) : Prop where
  opened : n.closed = false
  worker : n.IsSound
  unstarted : n.isStarted = false → n.queue = []
  room : 0 < n.capacity

/-- A new node is `Healthy`. -/
theorem healthy_create (settings : RemoteSettings) (address : Address) :
    (create settings address).Healthy := by
  refine ⟨rfl, trivial, fun _ => rfl, ?_⟩
  show 0 < max 1 settings.queueCapacity
  omega

/-- The steps that a worker has to take at most. -/
def effort (n : Node) : Nat :=
  4 * n.queue.length +
    match n.worker with
    | .dialing _ => 3
    | .loggingIn _ => 2
    | .exchanging _ => 1
    | .absent | .resting | .gone => 0

/-- What the next step of a worker comes to, for the values that its commands run on
(`dataAt`) before and after it: nothing is to be done, it comes closer to running its
command, it passes over a read that nobody waits for, or it runs the command that is
next. -/
inductive Serves (n : Node) (wanted : Ticket → Bool) (m : Contents) :
    Node × List Event → Contents → Prop
  | idle (backlog : n.backlog = []) : Serves n wanted m (n, []) m
  | goesOn (n' : Node) (sound : n'.IsSound)
      (backlog : n'.backlog = n.backlog) (effort : n'.effort < n.effort) :
      Serves n wanted m (n', []) m
  | passesOver (n' : Node) (key : String) (ticket : Ticket)
      (sound : n'.IsSound) (unwanted : wanted ticket = false)
      (backlog : n.backlog = .get key ticket :: n'.backlog) (effort : n'.effort < n.effort) :
      Serves n wanted m (n', []) m
  | answers (n' : Node) (c : Command) (ticket : Ticket) (sound : n'.IsSound)
      (asked : c.ticket? = some ticket) (backlog : n.backlog = c :: n'.backlog)
      (effort : n'.effort < n.effort) :
      Serves n wanted m (n', [.answered ticket (.ok (c.found m))]) (c.apply m)
  | stores (n' : Node) (key : String) (value : ByteArray) (expiration : Int)
      (sound : n'.IsSound)
      (backlog : n.backlog = .set key value expiration :: n'.backlog)
      (effort : n'.effort < n.effort) :
      Serves n wanted m (n', [.stored key]) ((Command.set key value expiration).apply m)

variable {n : Node} {c : Command} {m : Contents} {wanted : Ticket → Bool}

/-- A command that is over leaves the connection as it is. -/
theorem linked_finish (n : Node) (c : Command) (finding : Finding) :
    (n.finish c finding).1.linked = n.linked := by
  cases c <;> cases finding <;> rfl

/-- `Serves` for the command in hand, which is run. -/
theorem serves_finish (hhand : n.inHand = some c) :
    n.Serves wanted m (n.finish c (.ok (c.found m))) (c.apply m) := by
  have hbacklog := backlog_of_inHand hhand
  have heffort : 4 * n.queue.length < n.effort := by
    cases hw : n.worker <;> simp_all [inHand, effort]
  cases c with
  | set key value expiration => exact .stores _ key value expiration trivial hbacklog heffort
  | get key ticket => exact .answers _ (.get key ticket) ticket trivial rfl hbacklog heffort
  | delete key ticket => exact .answers _ (.delete key ticket) ticket trivial rfl hbacklog heffort
  | flush ticket => exact .answers _ (.flush ticket) ticket trivial rfl hbacklog heffort
  | barrier ticket => exact .answers _ (.barrier ticket) ticket trivial rfl hbacklog heffort

/-- `Serves` for a command that is taken. -/
theorem serves_takeNext (hworker : n.worker = .resting) (wanted : Ticket → Bool) :
    n.Serves wanted m (n.takeNext wanted) m := by
  have hnext : n.backlog = n.queue := backlog_of_idle (by simp [inHand, hworker])
  unfold takeNext
  cases hqueue : n.queue with
  | nil => exact .idle (hnext.trans hqueue)
  | cons c rest =>
      rw [hqueue] at hnext
      let taken : Node := { n with queue := rest, requests := n.requests + 1 }
      let started : Node := { taken with worker := if n.linked then .exchanging c else .dialing c }
      have heffort : n.effort = 4 * rest.length + 4 := by
        simp [effort, hworker, hqueue]
        omega
      have hstarted : n.Serves wanted m (started, []) m := by
        refine .goesOn started ?_ ?_ ?_
        · cases h : n.linked <;> simp [started, taken, h, IsSound]
        · rw [hnext]
          exact backlog_of_inHand (by cases h : n.linked <;> simp [started, inHand, h])
        · rw [heffort]
          cases h : n.linked <;> simp [effort, started, taken, h]
      have hsound : taken.IsSound := by simp [taken, hworker, IsSound]
      have htaken : n.backlog = c :: taken.backlog := by
        rw [hnext, backlog_of_idle (by simp [taken, inHand, hworker])]
      have hdone : taken.effort < n.effort := by simp [effort, taken, hworker, hqueue]
      cases c with
      | barrier ticket => exact .answers taken (.barrier ticket) ticket hsound rfl htaken hdone
      | get key ticket =>
          cases hw : wanted ticket with
          | true => simpa [hw] using hstarted
          | false => simpa [hw] using .passesOver taken key ticket hsound hw htaken hdone
      | _ => exact hstarted

/-- Taking a command neither opens nor gives up a connection, so `dataAt` stays. -/
theorem dataAt_takeNext (n : Node) (wanted : Ticket → Bool) :
    (n.takeNext wanted).1.dataAt = n.dataAt := by
  unfold takeNext
  split
  · rfl
  · dsimp only
    split
    · rfl
    · split <;> rfl
    · rfl

/-- `Serves` for a connection: it is there at once, or there is a login to come first. -/
theorem serves_dialed (hworker : n.worker = .dialing c) (hsound : n.IsSound) (s : Server) :
    n.Serves wanted (n.dataAt s) (n.dialed c .accepted) ((n.dialed c .accepted).1.dataAt s) := by
  have hbacklog : n.backlog = c :: n.queue := backlog_of_inHand (by simp [inHand, hworker])
  have hunlinked : n.linked = false := by simpa only [IsSound, hworker] using hsound
  unfold dialed
  dsimp only
  split
  · rename_i hnone
    have hsame : (n.connect c).dataAt s = n.dataAt s := by
      rw [dataAt_of_linked rfl, dataAt_of_unlinked hunlinked, connectTo, hnone]
      rfl
    rw [hsame]
    exact .goesOn _ rfl hbacklog.symm (by simp [effort, connect, hworker])
  · rename_i hlogin
    exact .goesOn _ (by simp [IsSound, hunlinked, hlogin]) hbacklog.symm (by simp [effort, hworker])

/-- **The next step** of a worker whose server is well. -/
theorem Healthy.serves (h : n.Healthy) (wanted : Ticket → Bool) (s : Server) :
    n.Serves wanted (n.dataAt s) (n.advance wanted (n.serve s).1)
      ((n.advance wanted (n.serve s).1).1.dataAt (n.serve s).2) := by
  have hsound := h.worker
  cases hworker : n.worker with
  | absent =>
      have hempty : n.queue = [] := h.unstarted (by simp [isStarted, hworker])
      simpa [serve, advance, hworker] using .idle (by simp [backlog, inHand, hworker, hempty])
  | gone => simp [hworker, IsSound] at hsound
  | resting =>
      simp only [serve, advance, hworker, dataAt_takeNext]
      exact serves_takeNext hworker wanted
  | dialing c =>
      simp only [serve, advance, hworker]
      exact serves_dialed hworker hsound s
  | loggingIn c =>
      obtain ⟨hunlinked, hsome⟩ : n.linked = false ∧ n.credentials.isSome = true := by
        simpa only [IsSound, hworker] using hsound
      obtain ⟨login, hlogin⟩ := Option.isSome_iff_exists.mp hsome
      have hbacklog : n.backlog = c :: n.queue := backlog_of_inHand (by simp [inHand, hworker])
      -- The server runs the login now, which the values before the step have counted in.
      have hdata : (n.connect c).dataAt (n.connectTo s) = n.dataAt s := by
        rw [dataAt_of_linked rfl, dataAt_of_unlinked hunlinked]
      simp only [serve, advance, hworker, hlogin]
      show n.Serves wanted (n.dataAt s) (n.connect c, []) ((n.connect c).dataAt (n.connectTo s))
      rw [hdata]
      exact .goesOn _ rfl hbacklog.symm (by simp [effort, connect, hworker])
  | exchanging c =>
      have hhand : n.inHand = some c := by simp [inHand, hworker]
      have hlinked : n.linked = true := by simpa only [IsSound, hworker] using hsound
      have hdata (finding : Finding) (s' : Server) :
          (n.finish c finding).1.dataAt s' = s'.contents := by
        refine dataAt_of_linked ?_ s'
        rw [linked_finish, hlinked]
      cases hrequest : c.request? with
      | some request =>
          simp only [serve, advance, hworker, hrequest, exchanged_execute n s hrequest,
            hdata, contents_execute s hrequest, dataAt_of_linked hlinked]
          exact serves_finish hhand
      | none =>
          obtain ⟨ticket, rfl⟩ : ∃ ticket, c = .barrier ticket := by
            cases c <;> simp_all [Command.request?]
          simp only [serve, advance, hworker, hrequest, dataAt_of_linked hlinked]
          show n.Serves wanted s.contents (n.finish (.barrier ticket) (.ok none)) _
          rw [hdata]
          exact serves_finish hhand

/-- `Serves` keeps the worker sound. -/
theorem Serves.sound {progress : Node × List Event} {m' : Contents}
    (h : n.Serves wanted m progress m') (hn : n.IsSound) : progress.1.IsSound := by
  cases h with
  | idle => exact hn
  | _ => assumption

/-- A node whose server is well stays `Healthy`. -/
theorem Healthy.advance (h : n.Healthy) (wanted : Ticket → Bool) (s : Server) :
    (n.advance wanted (n.serve s).1).1.Healthy := by
  have hkept := (advance_moves n wanted (n.serve s).1).kept
  refine ⟨hkept.closed.trans h.opened, ?_, fun hunstarted => ?_, hkept.capacity ▸ h.room⟩
  · exact (h.serves wanted s).sound h.worker
  · have hn : n.isStarted = false := hkept.started ▸ hunstarted
    rw [(advance_of_idle (.inl hn) wanted _).1]
    exact h.unstarted hn

/-! ## Queueing -/

/-- Whether a command that comes now meets a full queue. -/
def isFull (n : Node) : Bool := n.isStarted && n.capacity ≤ n.queue.length

/-- An open node whose worker has not ended takes every command that does not meet
a full queue. -/
theorem submit_of_room (hopen : n.closed = false) (hruns : n.isGone = false)
    (hfull : n.isFull = false) (c : Command) : ∃ n', n.submit c = .ok n' := by
  unfold Node.submit
  rw [if_neg (by simp [hopen])]
  cases hw : n.worker with
  | gone => simp [isGone, hw] at hruns
  | absent => exact ⟨_, rfl⟩
  | _ =>
      have hroom : ¬n.capacity ≤ n.queue.length := by simpa [isFull, isStarted, hw] using hfull
      exact ⟨_, if_neg hroom⟩

/-- An open node whose worker has not ended refuses a command that meets a full queue. -/
theorem submit_of_full (hopen : n.closed = false) (hruns : n.isGone = false)
    (hfull : n.isFull = true)
    (c : Command) : n.submit c = .error (.remote (.queueFull n.address n.capacity)) ∧
      n.capacity ≤ n.queue.length := by
  obtain ⟨hstarted, hlong⟩ : n.isStarted = true ∧ n.capacity ≤ n.queue.length := by
    simpa [isFull] using hfull
  refine ⟨?_, hlong⟩
  unfold Node.submit
  rw [if_neg (by simp [hopen])]
  cases hw : n.worker with
  | gone => simp [isGone, hw] at hruns
  | absent => simp [isStarted, hw] at hstarted
  | _ => exact if_pos hlong

/-- The worker of a `Healthy` node has not ended. -/
theorem Healthy.runs (h : n.Healthy) : n.isGone = false := by
  have hworker := h.worker
  cases hw : n.worker <;> simp_all [IsSound, isGone]

/-- A `Healthy` node takes every command that does not meet a full queue, and runs it on
what the commands before it leave. -/
theorem Healthy.submit (h : n.Healthy) (hfull : n.isFull = false) (c : Command) :
    ∃ n', n.submit c = .ok n' ∧ n'.Healthy ∧ n'.backlog = n.backlog ++ [c] ∧
      n'.dataAt = n.dataAt := by
  obtain ⟨n', hqueued⟩ := submit_of_room h.opened h.runs hfull c
  have hbacklog := backlog_submit h.unstarted hqueued
  refine ⟨n', hqueued, ?_, hbacklog, ?_⟩
  · obtain ⟨hopen, -, rfl⟩ := submit_eq h.unstarted hqueued
    refine ⟨hopen, ?_, fun hs => ?_, h.room⟩
    · have hworker := h.worker
      cases hw : n.worker <;> simp_all [isStarted, IsSound]
    · cases hw : n.worker <;> simp_all [isStarted]
  · obtain ⟨-, -, rfl⟩ := submit_eq h.unstarted hqueued
    exact dataAt_congr rfl rfl

/-- So it does with writes. -/
theorem Healthy.submitWrite (h : n.Healthy) (hfull : n.isFull = false) (key : String)
    (value : ByteArray) (expiration : Int) :
    ∃ n', n.submitWrite key value expiration = .ok n' ∧ n'.Healthy ∧
      n'.backlog = n.backlog ++ [.set key value expiration] ∧ n'.dataAt = n.dataAt := by
  have hcounted : { n with pendingWrites := n.pendingWrites + 1 }.Healthy :=
    ⟨h.opened, h.worker, h.unstarted, h.room⟩
  rw [submitWrite_eq]
  exact hcounted.submit hfull _

/-- With nothing to run, there is room. -/
theorem Healthy.isFull_of_backlog (h : n.Healthy) (hempty : n.backlog = []) : n.isFull = false := by
  have hqueue : n.queue = [] := (List.append_eq_nil_iff.mp hempty).2
  have hroom := h.room
  simp [isFull, hqueue]
  omega

/-- A worker that still has something to run gets closer to it: its `effort` decreases. -/
theorem Serves.effort_lt {progress : Node × List Event} {m' : Contents}
    (h : n.Serves wanted m progress m') (hn : n.backlog ≠ []) : progress.1.effort < n.effort := by
  cases h with
  | idle hempty => exact absurd hempty hn
  | _ => assumption

/-- A worker leaves what is to be run, or is done with the command that is next. -/
theorem Serves.shortens {progress : Node × List Event} {m' : Contents}
    (h : n.Serves wanted m progress m') :
    progress.1.backlog = n.backlog ∧ progress.2 = [] ∧ m' = m ∨
      ∃ c, n.backlog = c :: progress.1.backlog := by
  cases h with
  | idle => exact .inl ⟨rfl, rfl, rfl⟩
  | goesOn n' _ hbacklog _ => exact .inl ⟨hbacklog, rfl, rfl⟩
  | passesOver n' key ticket _ _ hbacklog _ => exact .inr ⟨_, hbacklog⟩
  | answers n' c ticket _ _ hbacklog _ => exact .inr ⟨_, hbacklog⟩
  | stores n' key value expiration _ hbacklog _ => exact .inr ⟨_, hbacklog⟩

end Node

/-! ## Deployments -/

/-- A key that servers take. -/
def isValidKey (key : String) : Bool := (keyFault? key).isNone

theorem validateKey_of_valid {key : String} (h : isValidKey key = true) :
    validateKey key = .ok () := by
  simp [validateKey, Option.isNone_iff_eq_none.mp h]

theorem validateKey_of_invalid {key : String} (h : isValidKey key = false) :
    ∃ e, validateKey key = .error e := by
  obtain ⟨fault, hfault⟩ := Option.isSome_iff_exists.mp (by simpa [isValidKey] using h)
  exact ⟨.invalidRequest fault, by simp [validateKey, hfault]⟩

namespace Cluster

/-- Whether a command for node `i` meets a full queue. -/
def isFullAt (c : Cluster) (i : Nat) : Bool := c.nodes[i]?.any Node.isFull

/-- Whether a call reads or writes data and the command that it begins with, if
there is one, meets no full queue. -/
def accepts (c : Cluster) : Call → Bool
  | .get key | .set key _ _ | .delete key => !isValidKey key || !c.isFullAt (c.nodeOf key)
  | .getMany _ => true
  | .clear => !c.isFullAt 0
  | .stop | .awaitWrites => false

/-- Whether the command that a call queues as it goes on, if it does, meets no
full queue. -/
def acceptsNext (c : Cluster) : Progress → Bool
  | .queues (key :: _) _ => !isValidKey key || !c.isFullAt (c.nodeOf key)
  | .waits (.clear i ticket rest) =>
    (c.outcome? false i ticket).isNone || rest.head?.all fun j => !c.isFullAt j
  | .queues [] _ | .waits _ => true

end Cluster

/-- A client with a `Server` for each of its nodes. -/
structure Deployment where
  system : System
  servers : Nat → Server

/-- A call starts, the call under way goes on if it can, or a worker takes its
next step. -/
inductive Move
  | start (unixSeconds : Int) (call : Cluster.Call)
  | resume
  | work (node : Nat)

/-- The call that a move starts. -/
def Move.call? : Move → Option Cluster.Call
  | .start _ call => some call
  | .resume | .work _ => none

namespace Deployment

/-- The deployment after a `Move`. -/
def perform (d : Deployment) : Move → Deployment
  | .start unixSeconds call => { d with system := d.system.step (.start unixSeconds call) }
  | .resume => { d with system := d.system.step (.resume 0 false) }
  | .work i =>
    match d.system.cluster.nodes[i]? with
    | none => d
    | some n =>
      { system := d.system.step (.worker i (n.serve (d.servers i)).1)
        servers := Function.update d.servers i (n.serve (d.servers i)).2 }

/-- The deployment after some moves. -/
def after (d : Deployment) (moves : List Move) : Deployment := moves.foldl perform d

/-- Whether a move is one of a caller that makes one call after the other and never
meets a full queue. Workers may move at any time. -/
def admits (d : Deployment) : Move → Bool
  | .start _ call => d.system.underway.isEmpty && d.system.fresh.accepts call
  | .resume => d.system.underway.all fun call => d.system.cluster.acceptsNext call.2
  | .work _ => true

/-- Whether `admits` holds of all moves, in the states in which they come. -/
def admitsAll : Deployment → List Move → Bool
  | _, [] => true
  | d, move :: moves => d.admits move && (d.perform move).admitsAll moves

@[simp] theorem after_nil (d : Deployment) : d.after [] = d := rfl

@[simp] theorem after_cons (d : Deployment) (move : Move) (moves : List Move) :
    d.after (move :: moves) = (d.perform move).after moves := rfl

theorem after_append (d : Deployment) (moves moves' : List Move) :
    d.after (moves ++ moves') = (d.after moves).after moves' := List.foldl_append ..

/-- Runs that are admitted are put together. -/
theorem admitsAll_append (d : Deployment) (moves moves' : List Move) :
    d.admitsAll (moves ++ moves') = (d.admitsAll moves && (d.after moves).admitsAll moves') := by
  induction moves generalizing d with
  | nil => rfl
  | cons move moves ih => simp [admitsAll, ih, Bool.and_assoc]

end Deployment

end CacheService.Remote
