import CacheService.Proofs.Remote.Interleaving
import CacheService.Remote.Schedule

/-!
# CacheService.Proofs.Remote.Execution

Running the client on a network is one of the interleavings. The schedule that is
executed lets one call wait at a time, runs every worker as far as its server answers,
and lets time limits pass only when nothing can run; each of these is a sequence of the
steps that any schedule is made of, so what holds of all interleavings holds of what is
executed.

* `Node.Reaches` — where steps of its worker can take a node, one lemma for each
  function that runs a worker.
* `System.Reaches` — where steps can take a system, whatever has been answered before.
* `Live.system` — a client at work as a `System`. What runs the workers of all nodes is
  put together in `Live.reaches_foldl`, and rounds of it in `Live.reaches_rounds`; calls
  are in `Live.reaches_call`.
-/

namespace CacheService.Remote

/-! ## Workers -/

namespace Node

/-- Where steps of its worker can take a node, with what others see of them. -/
inductive Reaches (wanted : Ticket → Bool) : (n m : Node) → List Event → Prop
  | refl (n : Node) : Reaches wanted n n []
  | step {n m : Node} {events : List Event} (st : WorkerStep)
      (rest : Reaches wanted (n.advance wanted st).1 m events) :
      Reaches wanted n m ((n.advance wanted st).2 ++ events)

variable {wanted : Ticket → Bool} {n m k : Node} {events more : List Event}

/-- `Reaches` is transitive, and events add up. -/
theorem Reaches.trans (h : Reaches wanted n m events) (h' : Reaches wanted m k more) :
    Reaches wanted n k (events ++ more) := by
  induction h with
  | refl n => exact h'
  | step st _ ih =>
      rw [List.append_assoc]
      exact .step st (ih h')

/-- One step is `Reaches`. -/
theorem reaches_advance (st : WorkerStep) (h : n.advance wanted st = (m, events)) :
    Reaches wanted n m events := by
  have hstep := Reaches.step st (.refl (n.advance wanted st).1)
  rwa [h, List.append_nil] at hstep

section Network

variable {σ : Type} [Network σ] (i : Nat) (n : Node) (net : σ)

theorem reaches_runExchange :
    Reaches wanted n (n.runExchange i net).1 (n.runExchange i net).2.1 := by
  unfold runExchange
  cases hworker : n.worker with
  | exchanging c =>
      dsimp only
      cases hrequest : c.request? with
      | none => exact reaches_advance (.exchange .lost) (by simp [advance, hworker, hrequest])
      | some request =>
          dsimp only
          split
          · exact .refl n
          · rename_i answer _ _ _
            exact reaches_advance (.exchange answer) (by simp [advance, hworker, hrequest])
  | _ => exact .refl n

theorem reaches_runLogin : Reaches wanted n (n.runLogin i net).1 (n.runLogin i net).2.1 := by
  unfold runLogin
  split
  · rename_i c credentials hworker hlogin
    dsimp only
    split
    · exact .refl n
    · rename_i answer _ _ _
      have hanswered : Reaches wanted n
          (n.loggedIn c credentials.user ((loginRequest credentials).read answer)).1
          (n.loggedIn c credentials.user ((loginRequest credentials).read answer)).2 :=
        reaches_advance (.login answer) (by simp [advance, hworker, hlogin])
      exact hanswered.trans (reaches_runExchange ..)
  · exact reaches_runExchange ..

theorem reaches_runDial : Reaches wanted n (n.runDial i net).1 (n.runDial i net).2.1 := by
  unfold runDial
  split
  · rename_i c hworker
    split
    · exact .refl n
    · rename_i outcome _ _ _
      have hdialed : Reaches wanted n (n.dialed c outcome).1 (n.dialed c outcome).2 :=
        reaches_advance (.dial outcome) (by simp [advance, hworker])
      exact hdialed.trans (reaches_runLogin ..)
  · exact reaches_runExchange ..

theorem reaches_runNext :
    Reaches wanted n (n.runNext i wanted net).1 (n.runNext i wanted net).2.1 := by
  unfold runNext
  split
  · rename_i hworker
    have htaken : Reaches wanted n (n.takeNext wanted).1 (n.takeNext wanted).2 :=
      reaches_advance .take (by simp [advance, hworker])
    exact htaken.trans (reaches_runDial ..)
  · exact .refl n

theorem reaches_runQueue (rounds : Nat) :
    Reaches wanted n (n.runQueue i wanted rounds net).1 (n.runQueue i wanted rounds net).2.1 := by
  induction rounds generalizing n net with
  | zero => exact reaches_advance .retire rfl
  | succ rounds ih => exact (reaches_runNext i n net).trans (ih ..)

end Network

end Node

/-! ## Systems -/

namespace System

open Cluster (Call Progress Result Stage)

/-- Whether steps can lead from one system to another, whatever has been answered before
and is answered in them. -/
def Reaches (s s' : System) : Prop :=
  ∀ answered, ∃ steps answered',
    after { s with answered } steps = { s' with answered := answered' }

variable {s s' s'' : System}

theorem Reaches.refl (s : System) : s.Reaches s := fun answered => ⟨[], answered, rfl⟩

/-- `Reaches` is transitive. -/
theorem Reaches.trans (h : s.Reaches s') (h' : s'.Reaches s'') : s.Reaches s'' := by
  intro answered
  obtain ⟨steps, answered', hsteps⟩ := h answered
  obtain ⟨steps', answered'', hsteps'⟩ := h' answered'
  exact ⟨steps ++ steps', answered'', by rw [after_append, hsteps, hsteps']⟩

/-- `Reaches` by one step that does not depend on what has been answered. -/
theorem reaches_step (st : Step)
    (h : ∀ answered, ∃ answered', step { s with answered } st = { s' with answered := answered' }) :
    s.Reaches s' := by
  intro answered
  obtain ⟨answered', hstep⟩ := h answered
  exact ⟨[st], answered', hstep⟩

/-- Turning a call does not look at what has been `answered`. -/
theorem turned_answered (s : System) (answered : List (Command × Answer)) (call : Call)
    (stage : Stage) :
    turned { s with answered } call stage = { s.turned call stage with answered } := by
  unfold turned
  cases stage.2 <;> rfl

/-- The steps of one worker (`Node.Reaches`) are steps of its system. -/
theorem reaches_worker {i : Nat} {n m : Node} {events : List Event} {wanted : Ticket → Bool}
    (h : n.Reaches wanted m events) (hi : s.cluster.nodes[i]? = some n)
    (hwanted : s.wants = wanted) :
    s.Reaches { s with cluster := s.cluster.worked i wanted (m, events) } := by
  induction h generalizing s with
  | refl n =>
      have hset : s.cluster.nodes.set i n = s.cluster.nodes := by
        obtain ⟨hlt, rfl⟩ := List.getElem?_eq_some_iff.mp hi
        exact List.set_getElem_self hlt
      have hsame : s.cluster.worked i wanted (n, []) = s.cluster := by
        simp [Cluster.worked_eq, Cluster.kept, hset]
      rw [hsame]
      exact .refl s
  | @step n m events st _ ih =>
      let next : System := { s with cluster := s.cluster.worked i wanted (n.advance wanted st) }
      have hnode : next.cluster.nodes[i]? = some (n.advance wanted st).1 := by
        simp only [next, Cluster.worked_eq]
        exact List.getElem?_set_self (List.getElem?_eq_some_iff.mp hi).1
      have hworked : next.cluster.worked i wanted (m, events) =
          s.cluster.worked i wanted (m, (n.advance wanted st).2 ++ events) := by
        simp [next, Cluster.worked_eq, Cluster.kept]
      have hfirst : s.Reaches next := reaches_step (.worker i st) fun answered => by
        have hsame : System.wants { s with answered } = wanted := hwanted
        exact ⟨answered ++ n.heard st, by simp only [step, hi, hsame, next]⟩
      rw [← hworked]
      exact hfirst.trans (ih hnode hwanted)

/-- A call starts, and goes on to its first wait. -/
theorem reaches_start (s : System) (unixSeconds : Int) (call : Call) :
    s.Reaches (s.turned call (s.fresh.start unixSeconds call).stage) := by
  have hatOnce (hbegin : s.fresh.begin unixSeconds call = (s.fresh.start unixSeconds call).stage) :
      s.Reaches (s.turned call (s.fresh.start unixSeconds call).stage) :=
    reaches_step (.start unixSeconds call) fun answered => ⟨answered, by
      rw [← hbegin, ← turned_answered]
      rfl⟩
  cases call with
  | getMany keys =>
      cases hstopped : s.cluster.stopped with
      | true =>
          have hfresh : s.fresh.stopped = true := s.stopped_fresh.trans hstopped
          exact hatOnce (by simp [Cluster.begin, hfresh])
      | false =>
          intro answered
          refine ⟨_, answered,
            (after_getMany { s with answered } hstopped unixSeconds keys).trans ?_⟩
          rw [turned_answered]
          rfl
  | _ => exact hatOnce rfl

/-- The last call goes on. -/
theorem reaches_resume (s : System) (call : Call) (wait : Cluster.Waiting) (late : Bool) :
    Reaches { s with underway := s.underway ++ [(call, .waits wait)] }
      (s.turned call (s.cluster.resume late wait).stage) :=
  reaches_step (.resume s.underway.length late) fun answered => ⟨answered, by
    rw [← turned_answered]
    exact step_resume_last { s with answered } call (.waits wait) late⟩

end System

/-! ## Execution -/

namespace Live

open Cluster (Call Progress Result Turn Waiting)

variable {σ : Type} {wanted : Ticket → Bool} {underway : List (Call × Progress)}
  {returned : List (Call × Result)} {call : Call}

/-- A client at work as a `System`, with the calls under way and those that have
returned. -/
def system (l : Live σ) (underway : List (Call × Progress)) (returned : List (Call × Result)) :
    System :=
  { cluster := l.cluster, underway, returned }

/-- The answers that are wanted are those of the only call that waits. -/
theorem wants_only (l : Live σ) (wait : Waiting) :
    (l.system [(call, .waits wait)] returned).wants = (wait.tickets.contains ·) := by
  funext ticket
  simp [System.wants, system, Progress.tickets]

/-- With no call under way, no answer is wanted. -/
theorem wants_nothing (l : Live σ) : (l.system [] returned).wants = fun _ => false := rfl

/-- What lets the workers of some nodes run, one node after the other, is a sequence of
steps of these workers. -/
theorem reaches_foldl {f : Live σ → Nat → Live σ}
    (hnone : ∀ (l : Live σ) (i : Nat), l.cluster.nodes[i]? = none → f l i = l)
    (hsome : ∀ (l : Live σ) (i : Nat) (n : Node), l.cluster.nodes[i]? = some n → ∃ m events,
      n.Reaches wanted m events ∧ (f l i).cluster = l.cluster.worked i wanted (m, events))
    (l : Live σ) (hwanted : (l.system underway returned).wants = wanted) (positions : List Nat) :
    (l.system underway returned).Reaches ((positions.foldl f l).system underway returned) := by
  induction positions generalizing l with
  | nil => exact .refl _
  | cons i positions ih =>
      refine System.Reaches.trans ?_ (ih (f l i) hwanted)
      cases hi : l.cluster.nodes[i]? with
      | none =>
          rw [hnone l i hi]
          exact .refl _
      | some n =>
          obtain ⟨m, events, hreaches, hcluster⟩ := hsome l i n hi
          have hnode : (f l i).system underway returned =
              { l.system underway returned with
                cluster := l.cluster.worked i wanted (m, events) } := by
            rw [system, hcluster, system]
          rw [hnode]
          exact System.reaches_worker hreaches hi hwanted

/-- Letting time limits pass, by `reaches_foldl`. -/
theorem reaches_expire (l : Live σ) (hwanted : (l.system underway returned).wants = wanted) :
    (l.system underway returned).Reaches ((l.expire wanted).system underway returned) :=
  reaches_foldl (fun l i hi => by simp only [expireNode, hi])
    (fun l i n hi => ⟨n.expire.1, n.expire.2, Node.reaches_advance .expire rfl, by
      simp only [expireNode, hi, report, Cluster.worked]⟩) l hwanted _

/-- The only call under way goes on. -/
theorem reaches_resume (l : Live σ) (call : Call) (returned : List (Call × Result)) (late : Bool)
    (wait : Waiting) :
    let turn := l.cluster.resume late wait
    (l.system [(call, .waits wait)] returned).Reaches
      (match turn.next with
      | .inl result =>
        (l.report turn.cluster turn.notices).system [] (returned ++ [(call, result)])
      | .inr wait =>
        (l.report turn.cluster turn.notices).system [(call, .waits wait)] returned) := by
  have hreaches := System.reaches_resume (l.system [] returned) call wait late
  unfold System.turned Cluster.Turn.stage at hreaches
  cases hnext : (l.cluster.resume late wait).next <;>
    simpa [system, report, hnext] using hreaches

variable [Network σ]

/-- Letting every worker run, by `reaches_foldl`. -/
theorem reaches_settle (l : Live σ) (hwanted : (l.system underway returned).wants = wanted) :
    (l.system underway returned).Reaches ((l.settle wanted).system underway returned) :=
  reaches_foldl (fun l i hi => by simp only [settleNode, hi])
    (fun l i n hi => ⟨_, _, Node.reaches_runQueue i n l.network n.queue.length, by
      simp only [settleNode, hi, report, Cluster.worked, Node.run]⟩) l hwanted _

/-- **A call that waits**, until it returns. -/
theorem reaches_await (rounds elapsed : Nat) (wait : Waiting) (l : Live σ) :
    (await rounds elapsed wait l).1 = .error (.internal "the call does not end") ∨
      (l.system [(call, .waits wait)] returned).Reaches
        ((await rounds elapsed wait l).2.system []
          (returned ++ [(call, (await rounds elapsed wait l).1)])) := by
  -- A round goes on with the call, and then lets workers run or time pass.
  induction rounds generalizing elapsed wait l with
  | zero => exact .inl rfl
  | succ rounds ih =>
      have hfirst := reaches_resume l call returned (l.isOverdue wait) wait
      unfold await
      dsimp only at hfirst ⊢
      cases hnext : (l.cluster.resume (l.isOverdue wait) wait).next with
      | inl result =>
          simp only [hnext] at hfirst ⊢
          exact .inr hfirst
      | inr now =>
          simp only [hnext] at hfirst ⊢
          split
          · exact (ih ..).imp_right hfirst.trans
          · split
            · exact (ih ..).imp_right (hfirst.trans (reaches_settle _ (wants_only ..))).trans
            · generalize (patience now).any _ = late
              generalize l.report (l.cluster.resume (l.isOverdue wait) wait).cluster
                (l.cluster.resume (l.isOverdue wait) wait).notices = l' at hfirst ⊢
              have hsecond := hfirst.trans (reaches_resume l' call returned late now)
              cases hnext' : (l'.cluster.resume late now).next with
              | inl result =>
                  simp only [hnext'] at hsecond ⊢
                  exact .inr (hsecond.trans (reaches_expire _ (wants_nothing _)))
              | inr next =>
                  simp only [hnext'] at hsecond ⊢
                  exact (ih ..).imp_right (hsecond.trans (reaches_expire _ (wants_only ..))).trans

/-- **A call** that is run to its end, with no other under way. -/
theorem reaches_call (l : Live σ) (unixSeconds : Int) (call : Call) :
    (l.call unixSeconds call).1 = .error (.internal "the call does not end") ∨
      (l.system [] returned).Reaches
        ((l.call unixSeconds call).2.system []
          (returned ++ [(call, (l.call unixSeconds call).1)])) := by
  have hstart := System.reaches_start (l.system [] returned) unixSeconds call
  unfold System.turned Cluster.Turn.stage at hstart
  unfold Live.call
  dsimp only
  have hfresh : (l.system [] returned).fresh = l.cluster.forgetAnswers := rfl
  rw [hfresh] at hstart
  cases hnext : (l.cluster.forgetAnswers.start unixSeconds call).next with
  | inl result =>
      simp only [hnext] at hstart ⊢
      exact .inr hstart
  | inr wait =>
      simp only [hnext] at hstart ⊢
      exact (reaches_await ..).imp_right hstart.trans

/-- With no call under way, rounds that let the workers run, and time pass where they do
not end there, are steps of the workers. -/
theorem reaches_rounds {f : (rounds : Nat) → Live σ → Live σ} (hzero : ∀ l, f 0 l = l)
    (hsucc : ∀ rounds l, f (rounds + 1) l = l ∨ f (rounds + 1) l = (l.settle fun _ => false) ∨
      f (rounds + 1) l = f rounds ((l.settle fun _ => false).expire fun _ => false))
    (rounds : Nat) (l : Live σ) :
    (l.system [] returned).Reaches ((f rounds l).system [] returned) := by
  induction rounds generalizing l with
  | zero =>
      rw [hzero]
      exact .refl _
  | succ rounds ih =>
      have hsettle :
          (l.system [] returned).Reaches ((l.settle fun _ => false).system [] returned) :=
        reaches_settle l (wants_nothing l)
      obtain h | h | h := hsucc rounds l
      · rw [h]
        exact .refl _
      · rw [h]
        exact hsettle
      · rw [h]
        exact hsettle.trans ((reaches_expire _ (wants_nothing _)).trans (ih _))

/-- Waiting for writes, by `reaches_rounds`. -/
theorem reaches_flushWrites (rounds : Nat) (l : Live σ) :
    (l.system [] returned).Reaches ((flushWrites rounds l).system [] returned) := by
  refine reaches_rounds (fun _ => rfl) (fun rounds l => ?_) rounds l
  rw [flushWrites]
  split
  · exact .inl rfl
  · dsimp only
    split
    · exact .inr (.inl rfl)
    · exact .inr (.inr rfl)

/-- **Waiting** until no write is pending. -/
theorem reaches_quiesce (l : Live σ) :
    (l.system [] returned).Reaches (l.quiesce.system [] returned) :=
  reaches_flushWrites _ l

/-- Waiting for one worker to end, by `reaches_rounds`. -/
theorem reaches_awaitEnd (i rounds : Nat) (l : Live σ) :
    (l.system [] returned).Reaches ((awaitEnd i rounds l).system [] returned) := by
  refine reaches_rounds (fun _ => rfl) (fun rounds l => ?_) rounds l
  rw [awaitEnd]
  split
  · exact .inr (.inl rfl)
  · exact .inr (.inr rfl)

/-- **One node** that is closed on its own. -/
theorem reaches_closeNode (l : Live σ) (i : Nat) :
    (l.system [] returned).Reaches ((l.closeNode i).2.system [] returned) := by
  unfold closeNode
  cases hi : l.cluster.nodes[i]? with
  | none => exact .refl _
  | some n =>
      let closed : Live σ :=
        { l with cluster := { l.cluster with nodes := l.cluster.nodes.set i n.close } }
      have hclosed : (l.system [] returned).Reaches (closed.system [] returned) :=
        System.reaches_step (.close i) fun answered => ⟨answered, by
          simp [System.step, closed, system, List.modify_eq_set_getElem?, hi]⟩
      dsimp only
      split
      · exact hclosed.trans (reaches_awaitEnd i _ closed)
      · exact hclosed

end Live

end CacheService.Remote
