import Mathlib.Algebra.Order.BigOperators.Group.List
import CacheService.Proofs.Remote.Books
import CacheService.Proofs.Remote.Calls

/-!
# CacheService.Proofs.Remote.OneMap

Healthy nodes are one map. Writes are not waited for, every node drains its queue at its
own pace, and a flush reaches the nodes one after another; still every read answers what
a single map answers after the calls before it. Runs are made of `Move`s: a step of the
caller, or the next step of any worker.

* `Deployment.InStep` — what is already decided is what one map says, with at most one
  call under way; `Deployment.Follows` — what calls have returned by then. Every move
  keeps both (`Follows.perform`).
* `Deployment.Steady` — what the steps of workers keep. Whatever does can be drained
  (`Steady.drain`), so calls under way can be made to return (`Steady.finish`).
* `Deployment.Idle` — deployments at rest, and what is stored there
  (`Deployment.contents`). A new client comes to `Deployment.atFirst`: a login that a
  server stores is among it, and `login_read_back` is a read of one.
-/

namespace CacheService.Remote

namespace Deployment

open Cluster (Call Progress Result Stage)

variable {d : Deployment} {initial m : Contents} {issued : List Call}

/-- What is already decided is what one map says; at most one call is under way. -/
inductive InStep (d : Deployment) (m : Contents) : Prop
  | idle (due : Ticket → Option ByteArray) (none : d.system.underway = [])
      (tracks : d.system.cluster.Tracks d.servers m due [])
  | underway (due : Ticket → Option ByteArray) (call : Call) (progress : Progress)
      (only : d.system.underway = [(call, progress)])
      (onTheWay : d.system.cluster.Underway d.servers m due call progress)

/-- A deployment after the calls in `issued`: they have returned what one map answers,
but for the last, which may be under way. -/
structure Follows (d : Deployment) (initial : Contents) (issued : List Call) : Prop where
  calls : d.system.returned.map (·.1) ++ d.system.underway.map (·.1) = issued
  answers : initial.AnswersAll d.system.returned
  inStep : d.InStep (issued.foldl Contents.issue initial)

/-- A step of the only call under way keeps `Follows`. -/
theorem follows_turned {s : System} {servers : Nat → Server} {call : Call} {stage : Stage}
    (hidle : s.underway = []) (hanswers : initial.AnswersAll s.returned)
    (hstage : Cluster.Proceeds servers
      ((s.returned.map (·.1) ++ [call]).foldl Contents.issue initial) call stage) :
    Follows ⟨s.turned call stage, servers⟩ initial (s.returned.map (·.1) ++ [call]) := by
  unfold Cluster.Proceeds at hstage
  unfold System.turned
  cases hnext : stage.2 with
  | inl result =>
      rw [hnext] at hstage
      obtain ⟨⟨due, htracks⟩, hresult⟩ := hstage
      rw [List.foldl_append] at hresult
      exact ⟨by simp [hidle], hanswers.concat hresult.of_issue, .idle due hidle htracks⟩
  | inr progress =>
      rw [hnext] at hstage
      obtain ⟨due, honTheWay⟩ := hstage
      exact ⟨by simp [hidle], hanswers, .underway due call progress (by simp [hidle]) honTheWay⟩

theorem perform_resume_of_idle (hidle : d.system.underway = []) : d.perform .resume = d := by
  rw [perform, System.step_resume_none (by rw [hidle]; rfl)]

theorem perform_resume {call : Call} {progress : Progress}
    (honly : d.system.underway = [(call, progress)]) :
    d.perform .resume = ⟨System.turned { d.system with underway := [] } call
      (d.system.cluster.goOn false progress), d.servers⟩ := by
  have hfirst : d.system.underway[0]? = some (call, progress) := by rw [honly]; rfl
  rw [perform, System.step_resume_some hfirst, honly]
  rfl

theorem perform_work_none {i : Nat} (hi : d.system.cluster.nodes[i]? = none) :
    d.perform (.work i) = d := by
  simp only [perform, hi]

theorem perform_work {i : Nat} {n : Node} (hi : d.system.cluster.nodes[i]? = some n) :
    ∃ answered, d.perform (.work i) =
      ⟨{ d.system with
          cluster :=
            d.system.cluster.worked i d.system.wants
              (n.advance d.system.wants (n.serve (d.servers i)).1)
          answered },
        Function.update d.servers i (n.serve (d.servers i)).2⟩ := by
  simp only [perform, hi, System.step_worker_some hi]
  exact ⟨_, rfl⟩

/-- `Follows` when a call starts. -/
theorem Follows.start (h : d.Follows initial issued) {unixSeconds : Int} {call : Call}
    (hadmits : d.admits (.start unixSeconds call) = true) :
    (d.perform (.start unixSeconds call)).Follows initial (issued ++ [call]) := by
  obtain ⟨hidle, haccepts⟩ : d.system.underway = [] ∧ d.system.fresh.accepts call = true := by
    simpa [admits] using hadmits
  obtain rfl : d.system.returned.map (·.1) = issued := by simpa [hidle] using h.calls
  cases h.inStep with
  | underway due call progress honly _ => simp [hidle] at honly
  | idle due _ htracks =>
      have hfresh := htracks.forget
      rw [← System.fresh_of_idle hidle] at hfresh
      refine follows_turned hidle h.answers ?_
      rw [List.foldl_append]
      exact hfresh.begin haccepts

/-- `Follows` when the call under way goes on. -/
theorem Follows.resume (h : d.Follows initial issued) (hadmits : d.admits .resume = true) :
    (d.perform .resume).Follows initial issued := by
  cases h.inStep with
  | idle due hidle _ => rwa [perform_resume_of_idle hidle]
  | underway due call progress honly honTheWay =>
      have haccepts : d.system.cluster.acceptsNext progress = true := by
        simpa [admits, honly] using hadmits
      obtain rfl : d.system.returned.map (·.1) ++ [call] = issued := by
        simpa [honly] using h.calls
      rw [perform_resume honly]
      exact follows_turned rfl h.answers (honTheWay.goOn haccepts).1

/-- `Follows` when a worker takes its next step. -/
theorem Follows.work (h : d.Follows initial issued) (i : Nat) :
    (d.perform (.work i)).Follows initial issued := by
  cases hi : d.system.cluster.nodes[i]? with
  | none => rwa [perform_work_none hi]
  | some n =>
      obtain ⟨answered, hperform⟩ := perform_work hi
      rw [hperform]
      refine ⟨h.calls, h.answers, ?_⟩
      cases h.inStep with
      | idle due hidle htracks => exact .idle due hidle (htracks.work hi _)
      | underway due call progress honly honTheWay =>
          refine .underway due call progress honly (honTheWay.work hi fun t ht => ?_)
          simpa [System.wants, honly] using ht

/-- **A move** that is admitted keeps `Follows`. -/
theorem Follows.perform (h : d.Follows initial issued) {move : Move}
    (hadmits : d.admits move = true) :
    (d.perform move).Follows initial (issued ++ move.call?.toList) := by
  cases move with
  | start unixSeconds call => exact h.start hadmits
  | resume => simpa [Move.call?] using h.resume hadmits
  | work i => simpa [Move.call?] using h.work i

/-- **A run** of admitted moves does. -/
theorem Follows.after (h : d.Follows initial issued) {moves : List Move}
    (hadmits : d.admitsAll moves = true) :
    (d.after moves).Follows initial (issued ++ moves.filterMap Move.call?) := by
  induction moves generalizing d issued with
  | nil => simpa using h
  | cons move moves ih =>
      obtain ⟨hmove, hmoves⟩ : d.admits move = true ∧ (d.perform move).admitsAll moves = true := by
        simpa [admitsAll] using hadmits
      have hrest := ih (h.perform hmove) hmoves
      cases hcall : move.call? <;> simpa [hcall] using hrest

/-! ## Every call returns -/

/-- The steps that all workers have to take at most, by `Node.effort`. -/
def effort (d : Deployment) : Nat := (d.system.cluster.nodes.map Node.effort).sum

/-- What holds of deployments with healthy nodes, whatever their workers do. -/
structure Steady (P : Deployment → Prop) : Prop where
  healthy : ∀ d, P d → ∀ (i : Nat) (n : Node), d.system.cluster.nodes[i]? = some n → n.Healthy
  work : ∀ d i, P d → P (d.perform (.work i))

/-- A worker with something to run gets closer to it. -/
theorem effort_work {i : Nat} {n : Node} (hi : d.system.cluster.nodes[i]? = some n)
    (hhealthy : n.Healthy) (hn : n.backlog ≠ []) : (d.perform (.work i)).effort < d.effort := by
  have hlt := (hhealthy.serves d.system.wants (d.servers i)).effort_lt hn
  have hsum := Cluster.sum_map_set Node.effort hi
    (n.advance d.system.wants (n.serve (d.servers i)).1).1
  obtain ⟨answered, hperform⟩ := perform_work hi
  rw [hperform, effort, effort, Cluster.worked_eq]
  dsimp only
  omega

/-- A worker leaves the calls under way. -/
theorem underway_work (i : Nat) : (d.perform (.work i)).system.underway = d.system.underway := by
  cases hi : d.system.cluster.nodes[i]? with
  | none => rw [perform_work_none hi]
  | some n =>
      obtain ⟨answered, hperform⟩ := perform_work hi
      rw [hperform]

variable {P : Deployment → Prop}

/-- Workers can run all that is queued, and keep what is `Steady`. -/
theorem Steady.drain (hP : Steady P) (h : P d) :
    ∃ moves, (∀ move ∈ moves, move.call? = none) ∧ d.admitsAll moves = true ∧ P (d.after moves) ∧
      (d.after moves).system.cluster.Drained ∧
      (d.after moves).system.underway = d.system.underway := by
  -- A worker that has something left takes a step, which lowers the effort of all.
  induction hk : d.effort using Nat.strong_induction_on generalizing d with
  | _ k ih =>
      by_cases hdrained : d.system.cluster.Drained
      · exact ⟨[], by simp, rfl, h, hdrained, rfl⟩
      · simp only [Cluster.Drained] at hdrained
        push Not at hdrained
        obtain ⟨n, hn, hbacklog⟩ := hdrained
        obtain ⟨i, hi⟩ := List.getElem?_of_mem hn
        have hless := effort_work hi (hP.healthy d h i n hi) hbacklog
        obtain ⟨moves, hcalls, hadmits, hafter, hdrained, hunderway⟩ :=
          ih _ (hk ▸ hless) (hP.work d i h) rfl
        refine ⟨.work i :: moves, ?_, ?_, hafter, hdrained, hunderway.trans (underway_work i)⟩
        · simpa [Move.call?] using hcalls
        · simpa [admitsAll, admits] using hadmits

/-- Calls under way can be made to return if they get ahead whenever nothing is left to
run. -/
theorem Steady.finish (hP : Steady P)
    (hresume : ∀ d, P d → d.system.cluster.Drained →
      d.admits .resume = true ∧ P (d.perform .resume) ∧
        ∀ p ∈ (d.perform .resume).system.underway, ∃ q ∈ d.system.underway, p.2.toDo < q.2.toDo)
    (h : P d) :
    ∃ moves, (∀ move ∈ moves, move.call? = none) ∧ d.admitsAll moves = true ∧
      (d.after moves).system.underway = [] := by
  obtain ⟨k, hk⟩ : ∃ k, ∀ p ∈ d.system.underway, p.2.toDo < k := by
    refine ⟨(d.system.underway.map fun p => p.2.toDo).sum + 1, fun p hp => ?_⟩
    exact Nat.lt_succ_of_le (List.le_sum_of_mem (List.mem_map_of_mem hp))
  induction k generalizing d with
  | zero =>
      have hnone : d.system.underway = [] :=
        List.eq_nil_iff_forall_not_mem.mpr fun p hp => Nat.not_lt_zero _ (hk p hp)
      exact ⟨[], by simp, rfl, hnone⟩
  | succ k ih =>
      -- Going on may queue another command, so the queues are emptied first.
      obtain ⟨moves, hcalls, hadmits, hafter, hdrained, hunderway⟩ := hP.drain h
      obtain ⟨hgoesOn, hnext, hahead⟩ := hresume _ hafter hdrained
      have hleft : ∀ p ∈ ((d.after moves).perform .resume).system.underway, p.2.toDo < k := by
        intro p hp
        obtain ⟨q, hq, hlt⟩ := hahead p hp
        exact hlt.trans_le (Nat.le_of_lt_succ (hk q (hunderway ▸ hq)))
      obtain ⟨moves', hcalls', hadmits', hdone⟩ := ih hnext hleft
      refine ⟨moves ++ .resume :: moves', fun move hmove => ?_, ?_, ?_⟩
      · obtain hmove | hmove := List.mem_append.mp hmove
        · exact hcalls move hmove
        · obtain rfl | hmove := List.mem_cons.mp hmove
          · rfl
          · exact hcalls' move hmove
      · simp [admitsAll_append, admitsAll, hadmits, hgoesOn, hadmits']
      · rw [after_append, after_cons, hdone]

/-- All nodes of a deployment that is `InStep` are `Healthy`. -/
theorem InStep.healthy (h : d.InStep m) {i : Nat} {n : Node}
    (hi : d.system.cluster.nodes[i]? = some n) : n.Healthy := by
  cases h with
  | idle due _ htracks => exact (htracks.nodes i n hi).healthy
  | underway due call progress _ honTheWay => exact (honTheWay.tracks.nodes i n hi).healthy

/-- `Follows` is `Steady`. -/
theorem steady_follows (initial : Contents) (issued : List Call) :
    Steady fun d => d.Follows initial issued :=
  ⟨fun _ h _ _ hi => h.inStep.healthy hi, fun _ i h => h.work i⟩

/-- The call under way, if there is one, can be made to return. -/
theorem Follows.finish (h : d.Follows initial issued) :
    ∃ moves, (∀ move ∈ moves, move.call? = none) ∧ d.admitsAll moves = true ∧
      (d.after moves).system.underway = [] := by
  refine (steady_follows initial issued).finish (fun d h hdrained => ?_) h
  cases h.inStep with
  | idle due hidle _ =>
      rw [perform_resume_of_idle hidle]
      exact ⟨by simp [admits, hidle], h, by simp [hidle]⟩
  | underway due call progress honly honTheWay =>
      have haccepts := honTheWay.tracks.acceptsNext hdrained progress
      have hadmits : d.admits .resume = true := by simp [admits, honly, haccepts]
      refine ⟨hadmits, h.resume hadmits, fun p hp => ⟨(call, progress), by simp [honly], ?_⟩⟩
      rw [perform_resume honly] at hp
      exact (honTheWay.goOn haccepts).2 hdrained p.2 (System.progress_of_mem_turned rfl hp)

/-! ## Deployments at rest -/

/-- What is there to be read in a deployment at rest: under each key, what the next command
of its node runs on (`Node.dataAt`). -/
def contents (d : Deployment) : Contents := fun key =>
  d.system.cluster.nodes[d.system.cluster.nodeOf key]?.bind fun n =>
    n.dataAt (d.servers (d.system.cluster.nodeOf key)) key

/-- `contents` is what the node of the key finds at its server. -/
theorem contents_of_node {n : Node} {key : String}
    (hn : d.system.cluster.nodes[d.system.cluster.nodeOf key]? = some n) :
    d.contents key = n.dataAt (d.servers (d.system.cluster.nodeOf key)) key := by
  rw [contents, hn, Option.bind_some]

/-- Healthy nodes with nothing to run, and no call under way. -/
structure Idle (d : Deployment) : Prop where
  nonempty : d.system.cluster.nodes ≠ []
  running : d.system.cluster.stopped = false
  healthy : ∀ n ∈ d.system.cluster.nodes, n.Healthy
  drained : d.system.cluster.Drained
  quiet : d.system.underway = []

/-- With nothing left to run, what is stored is what will be, so `Tracks` holds of
`contents`. -/
theorem Idle.tracks (h : d.Idle) :
    d.system.cluster.forgetAnswers.Tracks d.servers d.contents (fun _ => none) [] := by
  refine ⟨h.nonempty, h.running, fun i n hn => ?_, by simp [Cluster.forgetAnswers], ?_⟩
  · have hempty := h.drained n (List.mem_of_getElem? hn)
    refine ⟨h.healthy n (List.mem_of_getElem? hn), by simp [hempty, ticketsOf], ?_⟩
    rw [hempty]
    trivial
  · intro i n hn _ key hkey
    rw [h.drained n (List.mem_of_getElem? hn)]
    subst hkey
    exact (contents_of_node hn).symm

/-- A new client is `Idle`. -/
theorem idle_create {settings : RemoteSettings} {c : Cluster}
    (hc : Cluster.create settings = .ok c) (servers : Nat → Server) :
    Idle ⟨{ cluster := c }, servers⟩ := by
  unfold Cluster.create at hc
  split at hc
  · contradiction
  · rename_i hnodes
    obtain rfl := Except.ok.inj hc
    refine ⟨by simpa using hnodes, rfl, fun n hn => ?_, fun n hn => ?_, rfl⟩
    · obtain ⟨address, -, rfl⟩ := List.mem_map.mp hn
      exact Node.healthy_create settings address
    · obtain ⟨address, -, rfl⟩ := List.mem_map.mp hn
      rfl

/-! ## One map -/

/-- What a new client has to read: under each key what the server of its node stores, but
for the login. That goes out to every node as a write of the key `auth`, and stays there
where the server of the node of this key asks for no login. -/
def atFirst (c : Cluster) (credentials : Option Credentials) (servers : Nat → Server) :
    Contents := fun key =>
  match credentials with
  | some login =>
    if key = "auth" ∧ (servers (c.nodeOf key)).login = none then
      some (login.user ++ " " ++ login.password).toUTF8
    else (servers (c.nodeOf key)).contents key
  | none => (servers (c.nodeOf key)).contents key

/-- What is there to be read for a new client is `atFirst`. -/
theorem contents_create {settings : RemoteSettings} {c : Cluster}
    (hc : Cluster.create settings = .ok c) (servers : Nat → Server) :
    contents ⟨{ cluster := c }, servers⟩ = atFirst c settings.credentials servers := by
  funext key
  obtain ⟨address, hn⟩ := Cluster.getElem?_nodeOf_create hc key
  rw [contents_of_node hn, Node.dataAt_of_unlinked rfl]
  show (settings.credentials.elim (servers (c.nodeOf key)) (servers (c.nodeOf key)).logIn).contents
    key = _
  cases settings.credentials with
  | none => rfl
  | some login =>
      rw [Option.elim_some]
      cases hlogin : (servers (c.nodeOf key)).login with
      | some required => simp [atFirst, Server.logIn, hlogin]
      | none => simp [atFirst, contents_logIn hlogin, hlogin, Function.update_apply]

/-- A new client `Follows` the map `atFirst`, with no calls. -/
theorem follows_create {settings : RemoteSettings} {c : Cluster}
    (hc : Cluster.create settings = .ok c) (servers : Nat → Server) :
    Follows ⟨{ cluster := c }, servers⟩ (atFirst c settings.credentials servers) [] := by
  have htracks := (idle_create hc servers).tracks
  rw [contents_create hc servers] at htracks
  have hforgets : c.forgetAnswers = c := by
    unfold Cluster.create at hc
    split at hc
    · contradiction
    · obtain rfl := Except.ok.inj hc
      rfl
  rw [hforgets] at htracks
  exact ⟨rfl, Contents.answersAll_nil, .idle (fun _ => none) rfl htracks⟩

/-- **Healthy nodes are one map.** Take any number of nodes, each with a server
of its own that answers every command, and a caller that makes one call after
the other and never meets a full queue, while workers take their steps whenever
they like. The calls that have been made have returned in order, but for the
last, which may be under way; and their results are those of one map, which at
the start has under each key what the server of its node has, or the login of
the client if this is stored there (`atFirst`). The call under way can always be
made to return by going on with it and with the workers. -/
theorem one_map_of_healthy {settings : RemoteSettings} {c : Cluster}
    (hc : Cluster.create settings = .ok c) (servers : Nat → Server) {moves : List Move}
    (hadmits : admitsAll ⟨{ cluster := c }, servers⟩ moves = true) :
    let initial := atFirst c settings.credentials servers
    let d := after ⟨{ cluster := c }, servers⟩ moves
    d.system.returned.map (·.1) ++ d.system.underway.map (·.1) = moves.filterMap Move.call? ∧
      initial.AnswersAll d.system.returned ∧
      ∃ more, (∀ move ∈ more, move.call? = none) ∧ d.admitsAll more = true ∧
        (d.after more).system.underway = [] := by
  intro initial d
  have h : d.Follows initial (moves.filterMap Move.call?) :=
    (follows_create hc servers).after hadmits
  exact ⟨h.calls, h.answers, h.finish⟩

/-- Two nodes that start empty. The last of two writes is read, and a read after a
delete and one after a clear find nothing, although no write was waited for. The
last read is of two keys, and the first is taken before the second is queued. -/
theorem one_map_of_healthy_reads :
    let settings : RemoteSettings := ⟨[⟨"a", 1⟩, ⟨"b", 2⟩], .ofSeconds 1, 4, none, none⟩
    let c : Cluster :=
      { timeout := settings.timeout, nodes := settings.nodes.map (Node.create settings) }
    let servers : Nat → Server := fun _ => { address := ⟨"a", 1⟩ }
    let issue (call : Call) : Move := .start 0 call
    let work (steps : Nat) : List Move := .replicate steps (.work 0)
    let moves : List Move := .flatten
      [[issue (.set "k" ⟨#[1]⟩ 0), issue (.set "k" ⟨#[2]⟩ 0), issue (.get "k")], work 7, [.resume],
        [issue (.delete "k")], work 2, [.resume, issue (.get "k")], work 2, [.resume],
        [issue (.set "k" ⟨#[3]⟩ 0), issue .clear], work 4, [.resume],
        [.work 1, .work 1, .work 1, .resume],
        [issue (.getMany ["k", "m"]), .resume], work 2, [.resume, .resume], work 2, [.resume]]
    let initial := atFirst c settings.credentials servers
    let returned := (after ⟨{ cluster := c }, servers⟩ moves).system.returned
    initial.AnswersAll returned ∧
      (returned.filterMap fun p => match p with
        | (.get _, .value value) => some value
        | (.getMany _, .found found) => some found["k"]?
        | _ => none) = [some ⟨#[2]⟩, none, none] := by
  intro settings c servers issue work moves initial returned
  have hc : Cluster.create settings = .ok c := rfl
  have hadmits : admitsAll ⟨{ cluster := c }, servers⟩ moves = true := by decide +kernel
  exact ⟨(one_map_of_healthy hc servers hadmits).2.1, by decide +kernel⟩

/-- One node with a login, whose server stores nothing and asks for no login. A client
that has written nothing reads its own login under the key `auth`, and a map that starts
from what the server stored has no such answer. -/
theorem login_read_back :
    let settings : RemoteSettings := ⟨[⟨"a", 1⟩], .ofSeconds 1, 4, some ⟨"u", "p"⟩, none⟩
    let c : Cluster :=
      { timeout := settings.timeout, nodes := settings.nodes.map (Node.create settings) }
    let servers : Nat → Server := fun _ => { address := ⟨"a", 1⟩ }
    let moves : List Move := .start 0 (.get "auth") :: .replicate 4 (.work 0) ++ [.resume]
    let stored : Contents := fun key => (servers (c.nodeOf key)).contents key
    let returned := (after ⟨{ cluster := c }, servers⟩ moves).system.returned
    Cluster.create settings = .ok c ∧ admitsAll ⟨{ cluster := c }, servers⟩ moves = true ∧
      (returned.map fun p => match p with
        | (.get key, .value value) => some (key, value)
        | _ => none) = [some ("auth", some "u p".toUTF8)] ∧
      stored "auth" = none ∧ ¬ stored.AnswersAll returned := by
  intro settings c servers moves stored returned
  have hreads : (returned.map fun p => match p with
      | (.get key, .value value) => some (key, value)
      | _ => none) = [some ("auth", some "u p".toUTF8)] := by decide +kernel
  refine ⟨rfl, by decide +kernel, hreads, by decide +kernel, fun hanswers => ?_⟩
  obtain ⟨⟨call, result⟩, hone, hp⟩ := List.map_eq_singleton_iff.mp hreads
  have hlast := hanswers [] call result (hone ▸ List.prefix_rfl)
  split at hp
  · rename_i key value heq
    obtain ⟨rfl, rfl⟩ := Prod.mk.inj heq
    obtain ⟨rfl, rfl⟩ := Prod.mk.inj (Option.some.inj hp)
    have hnone : stored.read "auth" = none := by decide +kernel
    have hread : some "u p".toUTF8 = stored.read "auth" := hlast
    rw [hnone] at hread
    cases hread
  · contradiction

end Deployment

end CacheService.Remote
