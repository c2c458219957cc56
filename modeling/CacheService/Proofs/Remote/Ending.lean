import Mathlib.Algebra.BigOperators.Group.List.Basic
import CacheService.Proofs.Remote.Stopping
import CacheService.Remote.Schedule

/-!
# CacheService.Proofs.Remote.Ending

That a stop comes to its end. Once every worker has run there is none that can run again
without the clock (`Live.canRun_settle`), so a stop that waits for a worker sees it end,
or gives it up after two time limits.

* `Node.mayRun` — whether a worker can go on without the clock. A worker that has run
  all that is queued cannot (`Node.mayRun_run`), and `Live.RunsAt` says this of the
  nodes one after the other.
* `roundsNeeded` — the rounds that a stop still takes, by the workers that are left
  and by how far the first of them has got. Every round needs fewer, which is what
  `Live.await_stop` is by induction on.
* `Live.call_stop` — on any network, a stop of a client that is not stopped returns
  without an error; `Live.call_of_stopped` says what comes after it.
-/

namespace CacheService.Remote

/-! ## Workers -/

namespace Node

/-- Whether the worker can go on without the clock: it is between commands, with another
one queued or with the end of a closed node before it. -/
def mayRun (n : Node) : Bool :=
  match n.worker with
  | .resting => !n.queue.isEmpty || n.closed
  | _ => false

variable {σ : Type} [Network σ] {n : Node}

@[simp] theorem queue_finish (n : Node) (c : Command) (finding : Finding) :
    (n.finish c finding).1.queue = n.queue := by
  cases c with
  | set key value expiration => cases finding <;> rfl
  | _ => rfl

@[simp] theorem queue_fail (n : Node) (c : Command) (e : CacheError) :
    (n.fail c e).1.queue = n.queue := queue_finish ..

@[simp] theorem queue_dialed (n : Node) (c : Command) (outcome : Dial) :
    (n.dialed c outcome).1.queue = n.queue := by
  unfold dialed
  cases outcome with
  | accepted => cases n.credentials <;> rfl
  | _ => exact queue_fail ..

@[simp] theorem queue_loggedIn (n : Node) (c : Command) (user : String) (reply : Reply) :
    (n.loggedIn c user reply).1.queue = n.queue := by
  cases reply with
  | done => rfl
  | _ => exact queue_fail ..

@[simp] theorem queue_exchanged (n : Node) (c : Command) (reply : Reply) :
    (n.exchanged c reply).1.queue = n.queue := by
  cases reply with
  | fault fault =>
      cases c with
      | delete key ticket => exact queue_finish ..
      | _ => exact queue_fail ..
  | timeout => exact queue_fail ..
  | _ => exact queue_finish ..

theorem queue_runExchange (i : Nat) (n : Node) (net : σ) :
    (n.runExchange i net).1.queue = n.queue := by
  unfold runExchange
  split
  · split
    · exact queue_finish ..
    · split
      · rfl
      · exact queue_exchanged ..
  · rfl

theorem queue_runLogin (i : Nat) (n : Node) (net : σ) : (n.runLogin i net).1.queue = n.queue := by
  unfold runLogin
  split
  · dsimp only
    split
    · rfl
    · rw [queue_runExchange, queue_loggedIn]
  · exact queue_runExchange ..

theorem queue_runDial (i : Nat) (n : Node) (net : σ) : (n.runDial i net).1.queue = n.queue := by
  unfold runDial
  split
  · split
    · rfl
    · rw [queue_runLogin, queue_dialed]
  · exact queue_runExchange ..

theorem queue_takeNext (n : Node) (wanted : Ticket → Bool) :
    (n.takeNext wanted).1.queue = n.queue.tail := by
  unfold takeNext
  split
  · rename_i hempty
    rw [hempty, List.tail_nil]
  · rename_i c rest hqueue
    cases c with
    | get key ticket => cases h : wanted ticket <;> simp [h, hqueue]
    | _ => simp [hqueue]

/-- A worker takes one command at a time: `runNext` leaves the others. -/
theorem queue_runNext (h : n.worker = .resting) (i : Nat) (wanted : Ticket → Bool) (net : σ) :
    (n.runNext i wanted net).1.queue = n.queue.tail := by
  unfold runNext
  simp only [h]
  rw [queue_runDial, queue_takeNext]

/-- A worker that retires cannot run again. -/
theorem mayRun_retire (h : n.worker = .resting → n.queue = []) : n.retire.mayRun = false := by
  unfold retire
  cases hworker : n.worker with
  | resting =>
      have hempty : n.queue = [] := h hworker
      cases hclosed : n.closed <;> simp [mayRun, hempty, hclosed, hworker]
  | _ => simp [mayRun, hworker]

/-- A worker that has run all that is queued cannot run again, and waits for a server if
it is not done. -/
theorem mayRun_runQueue (i : Nat) (wanted : Ticket → Bool) {rounds : Nat}
    (h : n.worker = .resting → n.queue.length ≤ rounds) (net : σ) :
    (n.runQueue i wanted rounds net).1.mayRun = false := by
  induction rounds generalizing n net with
  | zero =>
      exact mayRun_retire fun hworker => List.length_eq_zero_iff.mp (Nat.le_zero.mp (h hworker))
  | succ rounds ih =>
      have hnext (hworker : (n.runNext i wanted net).1.worker = .resting) :
          (n.runNext i wanted net).1.queue.length ≤ rounds := by
        by_cases hrests : n.worker = .resting
        · have hlength : n.queue.length ≤ rounds + 1 := h hrests
          rw [queue_runNext hrests, List.length_tail]
          omega
        · have hstays : n.runNext i wanted net = (n, [], net) := by
            unfold runNext
            split
            · contradiction
            · rfl
          rw [hstays] at hworker
          contradiction
      exact ih hnext _

/-- After `Node.run` a worker cannot run without the clock. -/
theorem mayRun_run (i : Nat) (wanted : Ticket → Bool) (n : Node) (net : σ) :
    (n.run i wanted net).1.mayRun = false := mayRun_runQueue i wanted (fun _ => le_rfl) net

end Node

/-! ## Clients at work -/

theorem Cluster.stopped_startStop (c : Cluster) : c.startStop.cluster.stopped = true := by
  unfold startStop
  split
  · assumption
  · rw [awaitEnds_cluster]

namespace Live

open Cluster (Call Result Waiting)

variable {σ : Type} {wanted : Ticket → Bool}

/-- `replace` puts a node back after its worker has made progress. -/
theorem cluster_replace (c : Cluster) (i : Nat) (wanted : Ticket → Bool) (n : Node)
    (events : List Event) :
    (c.replace i wanted n events).1 = { c with
      nodes := c.nodes.set i n
      arrived := Cluster.kept wanted events ++ c.arrived } := Cluster.absorb_cluster ..

/-- What the progress of each node keeps is kept when each has its turn. -/
theorem foldl_keeps {P : Live σ → Prop} {f : Live σ → Nat → Live σ} (hf : ∀ l i, P l → P (f l i))
    (positions : List Nat) {l : Live σ} (h : P l) : P (positions.foldl f l) := by
  induction positions generalizing l with
  | nil => exact h
  | cons i positions ih => exact ih (hf l i h)

theorem stopped_expire (l : Live σ) (wanted : Ticket → Bool) :
    (l.expire wanted).cluster.stopped = l.cluster.stopped := by
  refine foldl_keeps (P := fun l' => l'.cluster.stopped = l.cluster.stopped)
    (fun l' i h => ?_) _ rfl
  unfold expireNode
  split
  · exact h
  · simpa [report, cluster_replace] using h

variable [Network σ]

theorem stopped_settle (l : Live σ) (wanted : Ticket → Bool) :
    (l.settle wanted).cluster.stopped = l.cluster.stopped := by
  refine foldl_keeps (P := fun l' => l'.cluster.stopped = l.cluster.stopped)
    (fun l' i h => ?_) _ rfl
  unfold settleNode
  split
  · exact h
  · simpa [report, cluster_replace] using h

/-- The workers that can run are among those at `positions`. -/
def RunsAt (l : Live σ) (positions : List Nat) : Prop :=
  ∀ i n, l.cluster.nodes[i]? = some n → n.mayRun = true → i ∈ positions

/-- A node that has had its turn is taken off `RunsAt`. -/
theorem RunsAt.settleNode {l : Live σ} {i : Nat} {positions : List Nat}
    (h : l.RunsAt (i :: positions)) : (l.settleNode wanted i).RunsAt positions := by
  intro j m hm hruns
  have hothers (hj : j ≠ i) (hold : l.cluster.nodes[j]? = some m) : j ∈ positions :=
    (List.mem_cons.mp (h j m hold hruns)).resolve_left hj
  unfold Live.settleNode at hm
  split at hm
  · rename_i hi
    refine hothers (fun hj => ?_) hm
    rw [hj, hi] at hm
    contradiction
  · rename_i n hn
    simp only [report, cluster_replace] at hm
    obtain ⟨-, rfl⟩ | ⟨hj, hold⟩ := Cluster.getElem?_set_cases hm
    · rw [Node.mayRun_run] at hruns
      contradiction
    · exact hothers hj hold

/-- When all have had their turn, none is left. -/
theorem RunsAt.settle {l : Live σ} {positions : List Nat} (h : l.RunsAt positions) :
    (positions.foldl (Live.settleNode wanted) l).RunsAt [] := by
  induction positions generalizing l with
  | nil => exact h
  | cons i positions ih => exact ih h.settleNode

/-- **Once every worker has run** none can run again without the clock. -/
theorem canRun_settle (l : Live σ) (wanted : Ticket → Bool) : (l.settle wanted).canRun = false := by
  have hall : l.RunsAt l.cluster.positions := fun i n hn _ =>
    List.mem_range.mpr (List.getElem?_eq_some_iff.mp hn).1
  have hnone : (l.settle wanted).RunsAt [] := hall.settle
  refine List.any_eq_false.mpr fun n hn => ?_
  obtain ⟨i, hi⟩ := List.mem_iff_getElem?.mp hn
  exact fun hruns => absurd (hnone i n hi hruns) List.not_mem_nil

/-! ## Stops -/

/-- `awaitEnds` is done, or waits for one of the workers. -/
theorem awaitEnds_cases (c : Cluster) (left : List Nat) :
    (c.awaitEnds left).next = .inl .done ∨
      ∃ i rest, (c.awaitEnds left).next = .inr (.stop i rest) ∧ rest.length < left.length := by
  induction left with
  | nil => exact .inl rfl
  | cons i rest ih =>
      unfold Cluster.awaitEnds
      split
      · obtain hdone | ⟨j, rest', hnext, hlength⟩ := ih
        · exact .inl hdone
        · exact .inr ⟨j, rest', hnext, hlength.trans (Nat.lt_succ_self _)⟩
      · exact .inr ⟨i, rest, rfl, by simp⟩

/-- A stop that goes on returns, or waits for fewer workers, or its time is not up and
nothing has changed. -/
theorem resume_stop_cases (c : Cluster) (late : Bool) (i : Nat) (rest : List Nat) :
    (c.resume late (.stop i rest)).next = .inl .done ∨
      ∃ j rest', (c.resume late (.stop i rest)).next = .inr (.stop j rest') ∧
        (rest'.length < rest.length ∨
          late = false ∧ j = i ∧ rest' = rest ∧ (c.resume late (.stop i rest)).cluster = c) := by
  have hfewer {turn : Cluster.Turn} (h : turn.next = .inl .done ∨
      ∃ j rest', turn.next = .inr (.stop j rest') ∧ rest'.length < rest.length) :
      turn.next = .inl .done ∨ ∃ j rest', turn.next = .inr (.stop j rest') ∧
        (rest'.length < rest.length ∨
          late = false ∧ j = i ∧ rest' = rest ∧ turn.cluster = c) := by
    obtain hdone | ⟨j, rest', hnext, hlength⟩ := h
    · exact .inl hdone
    · exact .inr ⟨j, rest', hnext, .inl hlength⟩
  unfold Cluster.resume
  dsimp only
  split
  · exact hfewer (awaitEnds_cases c rest)
  · cases late with
    | true => exact hfewer (awaitEnds_cases _ rest)
    | false => exact .inr ⟨i, rest, rfl, .inr ⟨rfl, rfl, rfl, rfl⟩⟩

/-- The rounds that a stop still takes for the worker it waits for. -/
def roundsLeft (elapsed : Nat) (canRun : Bool) : Nat :=
  (if elapsed = 0 then 3 else 1) + if canRun then 1 else 0

theorem roundsLeft_le (elapsed : Nat) (canRun : Bool) : roundsLeft elapsed canRun ≤ 4 := by
  unfold roundsLeft
  split <;> split <;> omega

theorem roundsLeft_pos (elapsed : Nat) (canRun : Bool) : 0 < roundsLeft elapsed canRun := by
  unfold roundsLeft
  split <;> omega

theorem roundsLeft_ran (elapsed : Nat) :
    roundsLeft elapsed true = roundsLeft elapsed false + 1 := rfl

theorem roundsLeft_expired (canRun : Bool) : roundsLeft 1 canRun < roundsLeft 0 false := by
  cases canRun <;> decide

/-- The rounds that a stop still takes for the worker it waits for (`roundsLeft`) and
for the others. -/
def roundsNeeded (elapsed : Nat) (canRun : Bool) (rest : List Nat) : Nat :=
  4 * rest.length + roundsLeft elapsed canRun

/-- A stop that gets on to another worker needs fewer rounds, whatever that worker does. -/
theorem roundsNeeded_lt {rest rest' : List Nat} (h : rest'.length < rest.length)
    (elapsed elapsed' : Nat) (canRun canRun' : Bool) :
    roundsNeeded elapsed' canRun' rest' < roundsNeeded elapsed canRun rest := by
  have hle : roundsLeft elapsed' canRun' ≤ 4 := roundsLeft_le ..
  have hpos : 0 < roundsLeft elapsed canRun := roundsLeft_pos ..
  unfold roundsNeeded
  omega

/-- **A stop that waits** returns without an error, if it has four rounds for every
worker that is left (`roundsNeeded`). -/
theorem await_stop {rounds elapsed i : Nat} {rest : List Nat} {l : Live σ}
    (h : roundsNeeded elapsed l.canRun rest ≤ rounds) :
    (await rounds elapsed (.stop i rest) l).1 = .done := by
  -- Each round gets on to another worker, lets the workers run for the only time
  -- before the next limit, or lets a limit pass, of which two are waited for.
  induction rounds generalizing elapsed i rest l with
  | zero =>
      have hpos : 0 < roundsLeft elapsed l.canRun := roundsLeft_pos ..
      unfold roundsNeeded at h
      omega
  | succ rounds ih =>
      unfold await
      dsimp only
      obtain hdone | ⟨j, rest', hnext, hleft⟩ :=
        resume_stop_cases l.cluster (l.isOverdue (.stop i rest)) i rest
      · rw [hdone]
      rw [hnext]
      dsimp only
      generalize hl' :
        l.report (l.cluster.resume (l.isOverdue (.stop i rest)) (.stop i rest)).cluster
        (l.cluster.resume (l.isOverdue (.stop i rest)) (.stop i rest)).notices = l'
      generalize helapsed : elapsedFor elapsed (.stop i rest) (.stop j rest') = elapsed'
      have hbudget : roundsNeeded elapsed' l'.canRun rest' ≤ rounds + 1 := by
        obtain hfewer | ⟨-, rfl, rfl, hsame⟩ := hleft
        · exact (roundsNeeded_lt hfewer ..).le.trans h
        · have hcluster : l'.cluster = l.cluster := hl' ▸ hsame
          have hcanRun : l'.canRun = l.canRun := by simp only [canRun, hcluster]
          simpa [← helapsed, elapsedFor, hcanRun] using h
      split
      · -- The stop was out of time before, so it has got on.
        rename_i hoverdue
        obtain hfewer | ⟨hearly, rfl, rfl, hsame⟩ := hleft
        · exact ih (Nat.le_of_lt_succ ((roundsNeeded_lt hfewer ..).trans_le h))
        · have hcluster : l'.cluster = l.cluster := hl' ▸ hsame
          have hstays : l'.isOverdue (.stop j rest') = l.isOverdue (.stop j rest') := by
            simp only [isOverdue, hcluster]
          rw [hstays, hearly] at hoverdue
          contradiction
      · split
        · rename_i hruns
          refine ih ?_
          rw [hruns, roundsNeeded, roundsLeft_ran] at hbudget
          rw [canRun_settle]
          exact Nat.le_of_succ_le_succ hbudget
        · rename_i hruns
          rw [Bool.of_not_eq_true hruns] at hbudget
          obtain hdone | ⟨k, rest'', hnext', hleft'⟩ := resume_stop_cases l'.cluster
            ((patience (.stop j rest')).any (· ≤ elapsed' + 1)) j rest'
          · rw [hdone]
          rw [hnext']
          dsimp only
          refine ih (Nat.le_of_lt_succ (lt_of_lt_of_le ?_ hbudget))
          obtain hfewer | ⟨hearly, rfl, rfl, -⟩ := hleft'
          · exact roundsNeeded_lt hfewer ..
          · obtain rfl : elapsed' = 0 := by simpa [patience] using hearly
            have hone : elapsedFor (0 + 1) (.stop k rest'') (.stop k rest'') = 1 := by
              simp [elapsedFor]
            rw [hone]
            exact Nat.add_lt_add_left (roundsLeft_expired _) _

/-- There are four rounds for every node. -/
theorem length_le_roundsFor (c : Cluster) (w : Waiting) : 4 * c.nodes.length ≤ roundsFor c w := by
  have hsum : (c.nodes.map fun n => n.queue.length + 4).length ≤
      (c.nodes.map fun n => n.queue.length + 4).sum := by
    refine List.length_le_sum_of_one_le _ fun k hk => ?_
    obtain ⟨n, -, rfl⟩ := List.mem_map.mp hk
    omega
  rw [List.length_map] at hsum
  unfold roundsFor
  rw [Cluster.foldl_add_eq_sum]
  omega

/-- **A stop** of a client that is not stopped returns without an error. -/
theorem call_stop {l : Live σ} (h : l.cluster.stopped = false) (unixSeconds : Int) :
    (l.call unixSeconds .stop).1 = .done := by
  have hstart : l.cluster.forgetAnswers.start unixSeconds .stop =
      l.cluster.forgetAnswers.startStop :=
    rfl
  unfold Live.call
  dsimp only
  rw [hstart]
  unfold Cluster.startStop
  have hopen : l.cluster.forgetAnswers.stopped = false := h
  rw [hopen, if_neg Bool.false_ne_true]
  generalize hnodes : l.cluster.forgetAnswers.positions.filter _ = openNodes
  generalize hclosed : ({ l.cluster.forgetAnswers with
    stopped := true, nodes := l.cluster.forgetAnswers.nodes.map Node.close } : Cluster) = c
  obtain hdone | ⟨i, rest, hnext, hlength⟩ := awaitEnds_cases c openNodes
  · rw [hdone]
  rw [hnext]
  have hcount : openNodes.length ≤ c.nodes.length := by
    rw [← hnodes, ← hclosed, List.length_map]
    exact (List.length_filter_le ..).trans (by simp [Cluster.positions])
  have hrounds : 4 * c.nodes.length ≤ roundsFor c (.stop i rest) := length_le_roundsFor ..
  refine await_stop ((Nat.add_le_add_left (roundsLeft_le ..) _).trans ?_)
  simp only [report, Cluster.awaitEnds_cluster]
  omega

/-! ## Whether the client is stopped -/

/-- A call that goes on does not stop a client. -/
theorem stopped_resume (c : Cluster) (late : Bool) (w : Waiting) :
    (c.resume late w).cluster.stopped = c.stopped := by
  cases w with
  | stop i rest =>
      rw [Cluster.resume_stop]
      split <;> rfl
  | _ => exact (Cluster.queues_resume c late (by simp)).stopped

theorem stopped_startSet (c : Cluster) (unixSeconds : Int) (key : String) (value : ByteArray)
    (ttl : UInt32) : (c.startSet unixSeconds key value ttl).cluster.stopped = c.stopped := by
  unfold Cluster.startSet
  split
  · rfl
  · dsimp only
    split
    · rfl
    · split
      · rfl
      · split <;> rfl

/-- Only a stop makes a client `stopped`. -/
theorem stopped_start (c : Cluster) (unixSeconds : Int) {call : Call} (hruns : call ≠ .stop) :
    (c.start unixSeconds call).cluster.stopped = c.stopped := by
  cases call with
  | set key value ttl =>
      unfold Cluster.start
      dsimp only
      split
      · rfl
      · exact stopped_startSet ..
  | _ => exact (Cluster.queues_start c unixSeconds (by simp) hruns).stopped

theorem stopped_await (rounds elapsed : Nat) (w : Waiting) (l : Live σ) :
    (await rounds elapsed w l).2.cluster.stopped = l.cluster.stopped := by
  induction rounds generalizing elapsed w l with
  | zero => rfl
  | succ rounds ih =>
      have hfirst := stopped_resume l.cluster (l.isOverdue w) w
      unfold await
      dsimp only
      split
      · exact hfirst
      · split
        · exact (ih ..).trans hfirst
        · split
          · exact (ih ..).trans ((stopped_settle ..).trans hfirst)
          · have hsecond (c : Cluster) (hc : c.stopped = l.cluster.stopped) (late : Bool)
                (now : Waiting) : (c.resume late now).cluster.stopped = l.cluster.stopped :=
              (stopped_resume c late now).trans hc
            split
            · exact (stopped_expire ..).trans (hsecond _ hfirst ..)
            · exact (ih ..).trans ((stopped_expire ..).trans (hsecond _ hfirst ..))

/-- A call that is no stop leaves a client running. -/
theorem stopped_call (l : Live σ) (unixSeconds : Int) {call : Call} (hruns : call ≠ .stop) :
    (l.call unixSeconds call).2.cluster.stopped = l.cluster.stopped := by
  have hstart : (l.cluster.forgetAnswers.start unixSeconds call).cluster.stopped =
      l.cluster.stopped :=
    stopped_start _ unixSeconds hruns
  unfold Live.call
  dsimp only
  split
  · exact hstart
  · exact (stopped_await ..).trans hstart

/-- A stop leaves a client `stopped`, whatever it returns. -/
theorem stopped_call_stop (l : Live σ) (unixSeconds : Int) :
    (l.call unixSeconds .stop).2.cluster.stopped = true := by
  have hstart : (l.cluster.forgetAnswers.start unixSeconds .stop).cluster.stopped = true :=
    Cluster.stopped_startStop _
  unfold Live.call
  dsimp only
  split
  · exact hstart
  · exact (stopped_await ..).trans hstart

theorem stopped_flushWrites (rounds : Nat) (l : Live σ) :
    (flushWrites rounds l).cluster.stopped = l.cluster.stopped := by
  induction rounds generalizing l with
  | zero => rfl
  | succ rounds ih =>
      unfold flushWrites
      split
      · rfl
      · dsimp only
        split
        · exact stopped_settle ..
        · exact (ih _).trans ((stopped_expire ..).trans (stopped_settle ..))

theorem stopped_quiesce (l : Live σ) : l.quiesce.cluster.stopped = l.cluster.stopped :=
  stopped_flushWrites ..

/-- **A stopped client** refuses every call of its own at once. Nothing changes but
that answers which nobody waits for are forgotten. -/
theorem call_of_stopped {l : Live σ} (h : l.cluster.stopped = true) (unixSeconds : Int)
    {call : Call}
    (hcall : call ≠ .awaitWrites) :
    l.call unixSeconds call =
      (.error (.illegalState (System.refusal call)),
        { l with cluster := l.cluster.forgetAnswers }) := by
  have hstopped : l.cluster.forgetAnswers.stopped = true := h
  cases call with
  | awaitWrites => contradiction
  | stop =>
      simp [Live.call, Cluster.start, Cluster.startRunning, Cluster.startStop, hstopped,
        Cluster.Turn.returned, report, System.refusal]
  | _ => simp [Live.call, Cluster.start, hstopped, Cluster.Turn.returned, report, System.refusal]

end Live

end CacheService.Remote
