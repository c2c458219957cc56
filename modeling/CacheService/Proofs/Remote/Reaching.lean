import CacheService.Proofs.Remote.Clearing

/-!
# CacheService.Proofs.Remote.Reaching

A clear reaches every node (`System.clear_reaches_all`). Whatever becomes of the flush
of one node, and whatever other calls, workers and servers do meanwhile, the clear
comes to all nodes in order and returns without an error, since it waits for none
longer than a time limit. What its nodes have failed in is in the client's counts, and
a server that has acknowledged its flush has forgotten what was written before.

The servers are held to `System.Stores` only. That a `Server` keeps within it is
`stores_execute` and `stores_logIn`; runs of a server that does nothing of its own are
put together from `stores_self`, `stores_forgotten` and `serves_append`. A run of
`Clearing.step` is `Clearing.after`, and `Clearing.overdue` brings a clear to its end.

What a server may store after its flush is `System.Spared`. That nothing can be left
out there, nor the condition that no node is stopped by itself, shows
`clear_falls_short`: such a node ends the clear with an error, and a write that a
worker has given up may be executed by the server after the flush.
-/

namespace CacheService.Remote

open Cluster (Call Progress Result Stage)

/-! ## What servers may do -/

namespace System

variable {belated : Nat → String → ByteArray → Prop} {s : System} {stored stored' : Nat → Contents}
  {st : Step} {steps : List Step}

/-- `Stores` lets servers keep what they hold, unless they acknowledge a flush. -/
theorem stores_self (h : ∀ i, st ≠ .worker i (.exchange .ok))
    (stored : Nat → Contents) : s.Stores st belated stored stored :=
  ⟨fun _ _ _ hvalue => .inl hvalue, fun i _ _ hst => absurd hst (h i)⟩

/-- A `Server` that executes what a worker asks of it keeps within the limits of
`Stores`, whatever the worker hears of it. -/
theorem stores_execute (servers : Nat → Server) {i : Nat} {n : Node} {c : Command}
    {request : Request}
    (hn : s.cluster.nodes[i]? = some n) (hworker : n.worker = .exchanging c)
    (hrequest : c.request? = some request) (answer : Answer) :
    s.Stores (.worker i (.exchange answer)) belated (fun j => (servers j).contents)
      (Function.update (fun j => (servers j).contents) i
        ((servers i).execute request).2.contents) := by
  rw [contents_execute (servers i) hrequest]
  refine ⟨fun j key value hvalue => ?_, fun j m ticket hst hm hflush key value hvalue => ?_⟩
  · by_cases hji : j = i
    · subst hji
      rw [Function.update_self] at hvalue
      refine (Command.apply_eq_some hvalue).imp_right fun hset => .inl ?_
      obtain ⟨expiration, rfl⟩ := hset
      exact ⟨n, hn, .write expiration hworker⟩
    · rw [Function.update_of_ne hji] at hvalue
      exact .inl hvalue
  · obtain ⟨rfl, -⟩ := Step.worker.inj hst
    obtain rfl := Option.some.inj (hn.symm.trans hm)
    obtain rfl := Worker.exchanging.inj (hworker.symm.trans hflush)
    rw [Function.update_self] at hvalue
    contradiction

/-- So does a `Server` at `Server.logIn`, which stores the login where there is none to
check. -/
theorem stores_logIn (servers : Nat → Server) {i : Nat} {n : Node} {c : Command}
    {login : Credentials}
    (hn : s.cluster.nodes[i]? = some n) (hworker : n.worker = .loggingIn c)
    (hlogin : n.credentials = some login) (answer : Answer) :
    s.Stores (.worker i (.login answer)) belated (fun j => (servers j).contents)
      (Function.update (fun j => (servers j).contents) i ((servers i).logIn login).contents) := by
  refine ⟨fun j key value hvalue => ?_, fun j m ticket hst => by simp at hst⟩
  by_cases hji : j = i
  · subst hji
    rw [Function.update_self] at hvalue
    cases hasks : (servers j).login with
    | some asked =>
        have hsame : (servers j).logIn login = servers j := by simp [Server.logIn, hasks]
        exact .inl (hsame ▸ hvalue)
    | none =>
        rw [contents_logIn hasks, Function.update_apply] at hvalue
        split at hvalue
        · rename_i hkey
          subst hkey
          obtain rfl := Option.some.inj hvalue
          exact .inr (.inl ⟨n, hn, .login c hworker ⟨login, hlogin, rfl⟩⟩)
        · exact .inl hvalue
  · rw [Function.update_of_ne hji] at hvalue
    exact .inl hvalue

/-- In front of a run that is served as in `Serves`, steps without acknowledgements ask
nothing of servers. -/
theorem serves_append {belated : System → Nat → String → ByteArray → Prop}
    (h : ∀ i, .worker i (.exchange .ok) ∉ steps) {later : List Step}
    (hlater : (s.after steps).Serves belated stored later stored') :
    s.Serves belated stored (steps ++ later) stored' := by
  induction steps generalizing s with
  | nil => exact hlater
  | cons st steps ih =>
      exact ⟨stored, stores_self (fun i hi => h i (hi ▸ List.mem_cons_self)) stored,
        ih (fun i hi => h i (List.mem_cons_of_mem st hi)) hlater⟩

/-- A server that acknowledges something may have forgotten all that it stored. -/
theorem stores_forgotten (i : Nat) :
    s.Stores (.worker i (.exchange .ok)) belated stored
      (Function.update stored i fun _ => none) := by
  refine ⟨fun j key value hvalue => .inl ?_, fun j n ticket hst hn hworker key value hvalue => ?_⟩
  · by_cases hji : j = i
    · subst hji
      simp at hvalue
    · rwa [Function.update_of_ne hji] at hvalue
  · obtain ⟨rfl, -⟩ := Step.worker.inj hst
    rw [Function.update_self] at hvalue
    contradiction

end System

/-! ## Clears in runs -/

/-- What is not `stopped` after some steps was not before. -/
theorem System.running_of_after {s : System} {steps : List Step}
    (h : (s.after steps).cluster.stopped = false) : s.cluster.stopped = false := by
  cases hstopped : s.cluster.stopped with
  | false => rfl
  | true => exact (System.stopped_after hstopped steps).symm.trans h

section Runs

variable {settings : RemoteSettings} {c : Cluster}
  {spared : Nat → Ticket → String → ByteArray → Prop} {f : Followed}
  {stored stored' : Nat → Contents} {visits : List Visit} {start reached : System}
  {waiting : List (Nat × Command)}

/-- **A run** keeps a `Clearing`, step by step (`Clearing.step`). -/
theorem Clearing.after (hc : Cluster.create settings = .ok c) {steps : List Step}
    {belated : System → Nat → String → ByteArray → Prop}
    (h : Clearing spared start f stored visits reached waiting) (hruns : System.Runs c f.system)
    (hclose : ∀ i, .close i ∉ steps)
    (hspares : ∀ before st later, steps = before ++ st :: later →
      (f.system.after before).Spares st (belated (f.system.after (before ++ [st]))) spared)
    (hserves : f.system.Serves belated stored steps stored')
    (hrunning : (f.system.after steps).cluster.stopped = false) :
    ∃ visits' reached' waiting',
      Clearing spared start (f.after steps) stored' visits' reached' waiting' := by
  induction steps generalizing f stored visits reached waiting with
  | nil =>
      obtain rfl : stored' = stored := hserves
      exact ⟨visits, reached, waiting, h⟩
  | cons st steps ih =>
      obtain ⟨between, hstores, hserves⟩ := hserves
      have hst : ∀ i, st ≠ .close i := fun i hi => hclose i (hi ▸ List.mem_cons_self)
      have hnext : (f.system.step st).cluster.stopped = false := System.running_of_after hrunning
      obtain ⟨visits', reached', waiting', hstep⟩ :=
        h.step (hruns.running hc (System.running_of_step hnext)) hst hnext
          (hspares [] st steps rfl) hstores
      exact ih hstep (hruns.step hst) (fun i hi => hclose i (List.mem_cons_of_mem st hi))
        (fun before st' later hsplit => hspares (st :: before) st' later (hsplit ▸ rfl)) hserves
        hrunning

/-! ## The time limits are up -/

/-- A call that goes on leaves `stopped` as it is, unless it is a stop. -/
theorem System.Running.stopped_resume {s : System} (hs : s.Running) (position : Nat) (late : Bool) :
    (s.step (.resume position late)).cluster.stopped = s.cluster.stopped := by
  cases hp : s.underway[position]? with
  | none => rw [System.step_resume_none hp]
  | some p =>
      rw [System.step_resume_some hp, System.cluster_turned]
      exact (Cluster.queues_goOn s.cluster late (hs.stops p (List.mem_of_getElem? hp))).stopped

/-- A `Clearing` that is under way has nodes to come to. -/
theorem Clearing.remains (h : Clearing spared start f stored visits reached waiting)
    {position : Nat}
    (hstanding : f.standing = .underway position) :
    (∃ progress, f.system.underway[position]? = some (.clear, progress)) ∧
      visits.length < f.system.cluster.nodes.length := by
  have hstage := h.stage
  rw [hstanding] at hstage
  cases hstage with
  | waits _ i rest hcall hroom hnodes hawaited hseen =>
      refine ⟨⟨_, hcall⟩, ?_⟩
      have hlengths := congrArg List.length hnodes
      simp only [List.length_append, List.length_map, List.length_cons, Cluster.positions,
        List.length_range] at hlengths
      omega

/-- A `Clearing` that has returned has done so without an error, in the move in which it
has come to the last node. -/
theorem Clearing.returns (h : Clearing spared start f stored visits reached waiting)
    {result : Result}
    (hstanding : f.standing = .returned result) :
    result = .done ∧ (Call.clear, Result.done) ∈ f.system.returned ∧
      visits.map Visit.node = f.system.cluster.positions ∧ Sweeps start f.moves visits reached [] ∧
        (f.moves.map (·.1)).getLast? = some reached := by
  have hsweeps := h.sweeps
  have hstage := h.stage
  rw [hstanding] at hstage
  cases hstage with
  | returned hnodes hresult hlast => exact ⟨rfl, hresult, hnodes, hsweeps, hlast⟩

/-- **A clear whose time limits are up** goes on from every node that is left, and
returns: `Followed.overdue` is repeated once for each at most. -/
theorem Clearing.overdue (hc : Cluster.create settings = .ok c)
    (h : Clearing spared start f stored visits reached waiting) (hruns : System.Runs c f.system)
    (hrunning : f.system.cluster.stopped = false)
    (hlogs : ∀ key value, LogsIn settings.credentials key value →
      ∀ i ticket, spared i ticket key value)
    {position : Nat}
    (hstanding : f.standing = .underway position) :
    ∃ k ≤ f.system.cluster.nodes.length - visits.length,
      (Followed.overdue^[k] f).standing = .returned .done := by
  -- Each step leaves fewer nodes to come to.
  induction hleft : f.system.cluster.nodes.length - visits.length using Nat.strong_induction_on
    generalizing f visits reached waiting position with
  | _ left ih =>
    subst hleft
    obtain ⟨⟨progress, hcall⟩, hremains⟩ := h.remains hstanding
    have hgoes : f.overdue = f.step (.resume position true) := by simp [Followed.overdue, hstanding]
    have hst : ∀ i, Step.resume position true ≠ .close i := by simp
    have hs := hruns.running hc hrunning
    have hnext : (f.system.step (.resume position true)).cluster.stopped = false :=
      (hs.stopped_resume position true).trans hrunning
    have hlength : (f.system.step (.resume position true)).cluster.nodes.length =
        f.system.cluster.nodes.length := System.length_after f.system [.resume position true]
    -- The servers are left alone.
    have hstores : f.system.Stores (.resume position true) (fun _ _ _ => False) stored stored :=
      System.stores_self (by simp) stored
    have hspares : f.system.Spares (.resume position true) (fun _ _ _ => False) spared :=
      ⟨by simp, fun n hn key value hlogin =>
          hlogs key value (hruns.credentials hc n hn ▸ hlogin), by simp⟩
    obtain ⟨visits', reached', waiting', hclearing, hlonger⟩ :=
      h.goesOn hstanding hs (h.handed_step hs hst hnext hspares hstores)
    have hlonger := hlonger rfl
    cases hstanding' : (f.step (.resume position true)).standing with
    | underway position' =>
        have hremains' := (hclearing.remains hstanding').2
        rw [Followed.system_step] at hremains'
        obtain ⟨k, hk, hreturns⟩ := ih _ (by rw [Followed.system_step]; omega) hclearing
          (hruns.step hst) hnext hstanding' rfl
        rw [Followed.system_step] at hk
        refine ⟨k + 1, by omega, ?_⟩
        rw [Function.iterate_succ_apply, hgoes]
        exact hreturns
    | returned result =>
        refine ⟨1, by omega, ?_⟩
        rw [Function.iterate_one, hgoes, hstanding', (hclearing.returns hstanding').1]
    | abandoned => exact absurd hstanding' (Followed.standing_step_own hstanding hcall true)

/-! ## The whole clear -/

/-- What the server of a node may store that has acknowledged the flush under `ticket`,
after some steps of a client that logs in with `credentials`: what was issued in these
steps, the login, and what the server has executed belatedly when the acknowledgement
had been read. -/
inductive System.Spared (s : System) (credentials : Option Credentials)
    (belated : System → Nat → String → ByteArray → Prop) (steps : List Step) (i : Nat)
    (ticket : Ticket) (key : String) (value : ByteArray) : Prop
  | issued (unixSeconds : Int) (ttl : UInt32)
    (start : .start unixSeconds (.set key value ttl) ∈ steps)
  | login (logs : LogsIn credentials key value)
  | belated (before later : List Step) (split : steps = before ++ later)
      (acknowledged : (s.after before).acknowledged ticket = true)
      (executed : belated (s.after before) i key value)

/-- Whatever comes to the servers in the steps of a run is among what `Spared` allows. -/
theorem System.Runs.spares (hc : Cluster.create settings = .ok c) {s : System} (hruns : Runs c s)
    {belated : System → Nat → String → ByteArray → Prop}
    {steps before later : List Step} {st : Step}
    (hclose : ∀ i, .close i ∉ steps) (hsplit : steps = before ++ st :: later) :
    (s.after before).Spares st (belated (s.after (before ++ [st])))
      (s.Spared settings.credentials belated steps) := by
  have hruns' : Runs c (s.after before) :=
    hruns.after fun i hi => hclose i (hsplit ▸ List.mem_append_left _ hi)
  refine ⟨fun unixSeconds key value ttl hst i ticket => ?_, fun n hn key value hlogs i ticket => ?_,
    fun i ticket hack key value hbelated => ?_⟩
  · refine .issued unixSeconds ttl ?_
    rw [hsplit, hst]
    simp
  · exact .login (hruns'.credentials hc n hn ▸ hlogs)
  · refine .belated (before ++ [st]) later ?_ ?_ hbelated
    · rw [hsplit, List.append_assoc, List.singleton_append]
    · rw [after_append]
      exact hack

/-- **A clear reaches every node.** On a client that is not stopped, let a clear start
and any calls, workers and servers go on meanwhile, without a stop of a single node.
What the servers store is known only within the limits of `Serves`; whether they
answer, and with what, is open.

The clear returns, if it does, without an error, when it has come to all nodes in
order: it has handed one flush to each whose queue had room then, and no other
command to any, and has counted one failure for each flush that was not queued or
not acknowledged in time. It returns at the latest when the time limit is up for each
node that is left. What is stored by the server of a node that has acknowledged the
flush was issued after the clear started, or is the login, or has been executed by the
server after the acknowledgement, when no worker waited for it any more (`Spared`).
Without other calls, the failures that the client counts are those of the clear. -/
theorem System.clear_reaches_all {settings : RemoteSettings} {c : Cluster}
    (hc : Cluster.create settings = .ok c) {s : System} (hruns : System.Runs c s)
    (unixSeconds : Int) {meanwhile : List Step} (hclose : ∀ i, .close i ∉ meanwhile)
    {belated : System → Nat → String → ByteArray → Prop} {stored stored' : Nat → Contents}
    (hserves : s.Serves belated stored (.start unixSeconds .clear :: meanwhile) stored')
    {f : Followed} (hf : f = (s.follow unixSeconds .clear).after meanwhile)
    (hrunning : f.system.cluster.stopped = false) :
    (∀ result, f.standing = .returned result →
      result = .done ∧ (Call.clear, Result.done) ∈ f.system.returned ∧
        ∃ visits reached, visits.map Visit.node = s.cluster.positions ∧
          Sweeps s f.moves visits reached [] ∧ (f.moves.map (·.1)).getLast? = some reached) ∧
    (∀ position, f.standing = .underway position →
      ∃ k ≤ s.cluster.nodes.length, (Followed.overdue^[k] f).standing = .returned .done) ∧
    (∀ i ticket, (i, .flush ticket) ∈ queuedIn f.moves → f.system.acknowledged ticket = true →
      ∀ key value, stored' i key = some value →
        (s.step (.start unixSeconds .clear)).Spared settings.credentials belated meanwhile
          i ticket key value) ∧
    (s.underway = [] → (∀ unixSeconds call, .start unixSeconds call ∉ meanwhile) →
      (f.system.cluster.failures : Int) = s.cluster.failures + failuresIn f.moves) := by
  obtain ⟨between, hstores, hserves⟩ := hserves
  have hsystem : f.system = (s.step (.start unixSeconds .clear)).after meanwhile :=
    hf ▸ Followed.system_after ..
  have hnext : (s.step (.start unixSeconds .clear)).cluster.stopped = false :=
    System.running_of_after (hsystem ▸ hrunning)
  have hbefore := System.running_of_step hnext
  have hs := hruns.running hc hbefore
  have hruns' : Runs c (s.step (.start unixSeconds .clear)) := hruns.step (by simp)
  obtain ⟨visits, reached, waiting, hclearing⟩ : ∃ visits reached waiting,
      Clearing ((s.step (.start unixSeconds .clear)).Spared settings.credentials belated meanwhile)
        s f stored' visits reached waiting := by
    obtain ⟨visits, reached, waiting, hstart⟩ := clearing_start hs hbefore unixSeconds
    exact hf ▸ hstart.after hc hruns' hclose
      (fun before st later hsplit => hruns'.spares hc hclose hsplit) hserves (hsystem ▸ hrunning)
  have hlength : f.system.cluster.nodes.length = s.cluster.nodes.length := by
    rw [hsystem]
    exact System.length_after s (.start unixSeconds .clear :: meanwhile)
  refine ⟨fun result hstanding => ?_, fun position hstanding => ?_, fun i ticket hqueued hack => ?_,
    fun hidle hothers => ?_⟩
  · obtain ⟨hdone, hreturned, hnodes, hsweeps⟩ := hclearing.returns hstanding
    refine ⟨hdone, hreturned, visits, reached, ?_, hsweeps⟩
    rw [hnodes, Cluster.positions, Cluster.positions, hlength]
  · obtain ⟨k, hk, hreturns⟩ :=
      hclearing.overdue hc (hsystem ▸ hruns'.after hclose) hrunning
        (fun key value hlogs i ticket => .login hlogs) hstanding
    exact ⟨k, by omega, hreturns⟩
  · obtain ⟨n, -, hflushed⟩ := (hclearing.handed i ticket hqueued).node
    cases hflushed with
    | queued before later _ _ _ _ hpending =>
        rw [hack] at hpending
        contradiction
    | ended _ _ hcleared => exact hcleared hack
  · have hcounted := (Followed.isAlone_follow hidle unixSeconds .clear).failures_after hothers
    rw [← hf] at hcounted
    simp only [System.follow, failuresIn, List.map_cons, List.map_nil, List.sum_cons,
      List.sum_nil] at hcounted ⊢
    omega

end Runs

namespace System

/-- Three nodes, whose servers store a value under every key. The queue of the first
is full of a write, the server of the second refuses connections, and the third
acknowledges its flush: the clear has no error and counts two failures. -/
theorem clear_reaches_third :
    let settings : RemoteSettings :=
      ⟨[⟨"a", 1⟩, ⟨"b", 1⟩, ⟨"c", 1⟩], .ofSeconds 1, 1, none, none⟩
    let c : Cluster :=
      { timeout := settings.timeout, nodes := settings.nodes.map (Node.create settings) }
    let s := System.after { cluster := c } [.start 0 (.set "k" ⟨#[7]⟩ 0)]
    let failing : List Step :=
      [.worker 1 .take, .worker 1 (.dial (.refused "refused")), .resume 0 false,
        .worker 2 .take, .worker 2 (.dial .accepted)]
    let meanwhile := failing ++ [.worker 2 (.exchange .ok), .resume 0 false]
    let stored : Nat → Contents := fun _ _ => some ⟨#[7]⟩
    let stored' := Function.update stored 2 fun _ => none
    let f := (s.follow 0 .clear).after meanwhile
    Cluster.create settings = .ok c ∧
      s.Serves (fun _ _ _ _ => False) stored (.start 0 .clear :: meanwhile) stored' ∧
      f.standing = .returned .done ∧
      (∃ visits reached, visits.map Visit.node = [0, 1, 2] ∧ Sweeps s f.moves visits reached []) ∧
      (2, .flush 1) ∈ queuedIn f.moves ∧ f.system.acknowledged 1 = true ∧
      failuresIn f.moves = 2 := by
  intro settings c s failing meanwhile stored stored' f
  have hc : Cluster.create settings = .ok c := rfl
  have hruns : Runs c s := ⟨[.start 0 (.set "k" ⟨#[7]⟩ 0)], by simp, rfl⟩
  have hserves : s.Serves (fun _ _ _ _ => False) stored (.start 0 .clear :: meanwhile) stored' :=
    ⟨stored, stores_self (by simp) stored, serves_append (by simp [failing])
      ⟨stored', stores_forgotten 2, stored', stores_self (by simp) stored', rfl⟩⟩
  have hf : f = (s.follow 0 .clear).after meanwhile := rfl
  obtain ⟨hreturns, -, -, hcounts⟩ := clear_reaches_all hc hruns 0 (by simp [meanwhile, failing])
    hserves hf (by decide +kernel)
  have hends : (f.standing matches .returned _) = true := by decide +kernel
  obtain ⟨result, hstanding⟩ : ∃ result, f.standing = .returned result := by
    cases hstanding : f.standing with
    | returned result => exact ⟨result, rfl⟩
    | _ => simp [hstanding] at hends
  obtain ⟨rfl, -, visits, reached, hnodes, hsweeps, -⟩ := hreturns result hstanding
  have hpositions : s.cluster.positions = [0, 1, 2] := by decide +kernel
  have hthird : (queuedIn f.moves).any (fun p => p.1 == 2 && confirms 1 (p.2, .ok)) = true := by
    decide +kernel
  have hqueued : (2, .flush 1) ∈ queuedIn f.moves := by
    simpa [confirms_iff] using hthird
  have hbefore : s.cluster.failures = 0 := by decide +kernel
  have hafter : f.system.cluster.failures = 2 := by decide +kernel
  have hcounted := hcounts (List.isEmpty_iff.mp (by decide +kernel)) (by simp [meanwhile, failing])
  rw [hbefore, hafter] at hcounted
  exact ⟨hc, hserves, hstanding, ⟨visits, reached, hnodes.trans hpositions, hsweeps⟩,
    hqueued, by decide +kernel, by omega⟩

/-- Two ways in which a clear falls short of all that its client has written. On two
nodes, the first of which has been stopped by itself, it ends at that node with an
error, and the second is not handed a flush, though its queue has room. And on one
node, a write is given up when its time limit is up; the server acknowledges the flush
on the next connection, and executes the write after that. -/
theorem clear_falls_short :
    (let settings : RemoteSettings := ⟨[⟨"a", 1⟩, ⟨"b", 1⟩], .ofSeconds 1, 1, none, none⟩
      let c : Cluster :=
        { timeout := settings.timeout, nodes := settings.nodes.map (Node.create settings) }
      let s := System.after { cluster := c } [.close 0]
      let f := s.follow 0 .clear
      Cluster.create settings = .ok c ∧ f.system.cluster.stopped = false ∧
        s.cluster.isFullAt 1 = false ∧ queuedIn f.moves = [] ∧
        ∃ fault, f.standing = .returned (.error (.illegalState fault))) ∧
    (let settings : RemoteSettings := ⟨[⟨"a", 1⟩], .ofSeconds 1, 1, none, none⟩
      let c : Cluster :=
        { timeout := settings.timeout, nodes := settings.nodes.map (Node.create settings) }
      let s := System.after { cluster := c } [.start 0 (.set "k" ⟨#[7]⟩ 0), .worker 0 .take,
        .worker 0 (.dial .accepted), .worker 0 .expire]
      let meanwhile : List Step := [.worker 0 .take, .worker 0 (.dial .accepted),
        .worker 0 (.exchange .ok), .resume 0 false, .worker 0 .take]
      let stored : Nat → Contents := fun _ _ => none
      let stored' := Function.update stored 0 (Function.update (stored 0) "k" (some ⟨#[7]⟩))
      let belated : System → Nat → String → ByteArray → Prop := fun s i key value =>
        s.acknowledged 0 = true ∧ i = 0 ∧ key = "k" ∧ value = ⟨#[7]⟩
      let f := (s.follow 0 .clear).after meanwhile
      Cluster.create settings = .ok c ∧
        s.Serves belated stored (.start 0 .clear :: meanwhile) stored' ∧
        (f.standing matches .returned .done) = true ∧ (0, .flush 0) ∈ queuedIn f.moves ∧
        f.system.acknowledged 0 = true ∧ stored' 0 "k" = some ⟨#[7]⟩ ∧
        ∀ unixSeconds ttl, .start unixSeconds (.set "k" ⟨#[7]⟩ ttl) ∉ meanwhile) := by
  refine ⟨?_, ?_⟩
  · intro settings c s f
    exact ⟨rfl, by decide +kernel, by decide +kernel, List.isEmpty_iff.mp (by decide +kernel),
      .nodeStopped ⟨"a", 1⟩, rfl⟩
  · intro settings c s meanwhile stored stored' belated f
    refine ⟨rfl, ?_, by decide +kernel, ?_, by decide +kernel, by simp [stored'],
      by simp [meanwhile]⟩
    · have hflushed (s : System) (st : Step) : s.Stores st (belated (s.step st)) stored stored :=
        ⟨fun _ _ _ hvalue => .inl hvalue, fun _ _ _ _ _ _ _ _ hvalue => by simp [stored] at hvalue⟩
      refine ⟨stored, hflushed _ _, stored, hflushed _ _, stored, hflushed _ _, stored,
        hflushed _ _,
        stored, hflushed _ _, stored', ⟨fun i key value hvalue => .inr (.inr ?_), by simp⟩, rfl⟩
      have hlater : i = 0 ∧ key = "k" ∧ value = ⟨#[7]⟩ := by
        by_cases hi : i = 0
        · subst hi
          rw [show stored' 0 = Function.update (stored 0) "k" (some ⟨#[7]⟩) from
            Function.update_self .., Function.update_apply] at hvalue
          split at hvalue
          · exact ⟨rfl, ‹key = "k"›, (Option.some.inj hvalue).symm⟩
          · contradiction
        · rw [show stored' i = stored i from Function.update_of_ne hi ..] at hvalue
          contradiction
      exact ⟨by decide +kernel, hlater⟩
    · have hfirst : (queuedIn f.moves).any (fun p => p.1 == 0 && confirms 0 (p.2, .ok)) = true := by
        decide +kernel
      simpa [confirms_iff] using hfirst

end System

end CacheService.Remote
