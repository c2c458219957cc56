import CacheService.Proofs.Remote.OneMap

/-!
# CacheService.Proofs.Remote.SingleReads

Single reads, made one after the other on healthy nodes that have nothing to run at
first. Each waits for its own answer, so the queues hold one command at most, and no
read meets a full queue however small the queues are.

* `Cluster.Alone` — nothing but the read may have to be run, and `Cluster.ReadsOne` what
  such a read comes to.
* `Deployment.Singles` — single reads of some keys, all of which have returned but, at
  most, the last. It goes through every move of a caller that makes one call after the
  other (`Deployment.inTurn`) and of the workers (`Singles.after`), and can always be
  brought to its end (`Singles.canFinish`).
-/

namespace CacheService.Remote

namespace Cluster

/-! ## One read -/

/-- The only command that may have to be run is a read whose answer is awaited, and that
only if the answer is not there. -/
def Alone (c : Cluster) (key : String) (i : Nat) (ticket : Ticket) : Prop :=
  ∀ (j : Nat) (n : Node), c.nodes[j]? = some n → n.backlog = [] ∨
    j = i ∧ n.backlog = [.get key ticket] ∧ c.answer? ticket = none

/-- Whether a single read has come to what a map has and left nothing to run, or is on
the way to it with nothing else to run (`Alone`). -/
def ReadsOne (servers : Nat → Server) (m : Contents) (key : String) (stage : Stage) : Prop :=
  match stage.2 with
  | .inl result => result = .value (m.read key) ∧ (∃ due, stage.1.Tracks servers m due []) ∧
      stage.1.Drained
  | .inr progress => ∃ due i ticket, progress = .waits (.get key i ticket) ∧
      stage.1.Underway servers m due (.get key) progress ∧ stage.1.Alone key i ticket

variable {c : Cluster} {servers : Nat → Server} {m : Contents} {due : Ticket → Option ByteArray}
  {key : String} {i : Nat} {ticket : Ticket}

/-- A read begins on a client with nothing to run and no answer left over. -/
theorem Tracks.startAlone (h : c.Tracks servers m due []) (hdrained : c.Drained)
    (harrived : c.arrived = []) (key : String) :
    ReadsOne servers m key (c.startGet key).stage := by
  unfold Cluster.startGet
  cases hvalid : isValidKey key with
  | false =>
      obtain ⟨e, he⟩ := validateKey_of_invalid hvalid
      rw [he]
      exact ⟨by simp [Contents.read, hvalid], ⟨due, h.miss key e⟩, hdrained⟩
  | true =>
      have hn := List.getElem?_eq_getElem (h.nodeOf_lt key)
      have hempty := hdrained _ (List.mem_of_getElem? hn)
      have hhealthy := (h.nodes _ _ hn).healthy
      have hfull : c.isFullAt (c.nodeOf key) = false := by
        simp [isFullAt, hn, hhealthy.isFull_of_backlog hempty]
      obtain ⟨c', hsubmit, htracks, hawaits, -⟩ := h.submitGet hfull
      rw [validateKey_of_valid hvalid]
      simp only [hsubmit]
      refine ⟨_, c.nodeOf key, c.nextTicket, rfl, ⟨htracks, ⟨rfl, hvalid, Function.update_self ..⟩,
        fun p hp => ?_, by simp [Progress.unflushed]⟩, fun j n hj => ?_⟩
      · obtain rfl : p = (c.nodeOf key, c.nextTicket) := by simpa [Progress.sources] using hp
        exact hawaits
      · obtain ⟨e, hrefused⟩ | ⟨n₀, n', hn₀, hqueued, htaken⟩ :=
          c.submit_cases (c.nodeOf key) (.get key)
        · cases hrefused.symm.trans hsubmit
        · obtain ⟨rfl, -⟩ := Prod.mk.inj (htaken.symm.trans hsubmit)
          obtain rfl := Option.some.inj (hn.symm.trans hn₀)
          obtain ⟨rfl, rfl⟩ | ⟨-, hj⟩ := getElem?_set_cases hj
          · have hnone : c.answer? c.nextTicket = none := by simp [answer?, harrived]
            refine .inr ⟨rfl, ?_, hnone⟩
            rw [Node.backlog_submit hhealthy.unstarted hqueued, hempty]
            rfl
          · exact .inl (hdrained n (List.mem_of_getElem? hj))

/-- An outcome that is a value is an answer that has arrived. -/
theorem answer?_of_outcome {late : Bool} {value : Option ByteArray}
    (h : c.outcome? late i ticket = some (.ok value)) : c.answer? ticket = some (.ok value) := by
  unfold outcome? at h
  grind

/-- The read goes on, and is `ReadsOne`. -/
theorem Underway.resumeAlone
    (h : c.Underway servers m due (.get key) (.waits (.get key i ticket)))
    (halone : c.Alone key i ticket) :
    ReadsOne servers m key (c.resume false (.get key i ticket)).stage := by
  obtain houtcome | ⟨houtcome, -⟩ := h.outcome (List.mem_singleton_self (i, ticket))
  · obtain ⟨-, hvalid, hdue⟩ := h.expects
    obtain ⟨hvalue, htracks, hnodes, -⟩ := h.tracks.settleRead key (due ticket)
    have hanswer := answer?_of_outcome houtcome
    have hdrained : c.Drained := fun n hn => by
      obtain ⟨j, hj⟩ := List.getElem?_of_mem hn
      obtain hempty | ⟨-, -, hnone⟩ := halone j n hj
      · exact hempty
      · cases hnone.symm.trans hanswer
    simp only [Cluster.resume, houtcome]
    refine ⟨?_, ⟨due, htracks⟩, fun n hn => hdrained n (hnodes ▸ hn)⟩
    show Result.value (c.settleRead key (.ok (due ticket))).1 = .value (m.read key)
    rw [hvalue, hdue, Contents.read, if_pos hvalid]
  · simp only [Cluster.resume, houtcome]
    exact ⟨due, i, ticket, rfl, h, halone⟩

/-- A worker takes a step while the read is under way, and it stays `Alone`. -/
theorem Underway.workAlone
    (h : c.Underway servers m due (.get key) (.waits (.get key i ticket)))
    (halone : c.Alone key i ticket) {j : Nat} {n : Node} (hj : c.nodes[j]? = some n)
    (wanted : Ticket → Bool) :
    (c.worked j wanted (n.advance wanted (n.serve (servers j)).1)).Alone key i ticket := by
  have hserves := (h.tracks.nodes j n hj).healthy.serves wanted (servers j)
  rw [worked_eq]
  intro k n' hk
  obtain ⟨hsame, hevents, -⟩ | ⟨next, hnext⟩ := hserves.shortens
  · -- Nothing has been answered, and every node has to run what it had to run before.
    have harrived : kept wanted (n.advance wanted (n.serve (servers j)).1).2 = [] := by
      simp [hevents, kept]
    obtain ⟨rfl, rfl⟩ | ⟨-, hk⟩ := getElem?_set_cases hk
    · rw [hsame, harrived]
      exact halone k n hj
    · rw [harrived]
      exact halone k n' hk
  · -- The read itself has been run, and nothing is left.
    obtain hempty | ⟨rfl, hread, -⟩ := halone j n hj
    · cases hempty.symm.trans hnext
    · obtain ⟨rfl, rfl⟩ | ⟨hne, hk⟩ := getElem?_set_cases hk
      · exact .inl (List.cons.inj (hnext.symm.trans hread)).2
      · obtain hempty | ⟨rfl, -⟩ := halone k n' hk
        · exact .inl hempty
        · exact absurd rfl hne

end Cluster

namespace Deployment

open Cluster (Call Progress Result)

/-! ## Calls in turn -/

/-- Whether the calls under way can be made to return, by going on with them and with
the workers. -/
def CanFinish (d : Deployment) : Prop :=
  ∃ moves : List Move, (∀ move ∈ moves, move.call? = none) ∧ (d.after moves).system.underway = []

/-- Whether calls are made one after the other. -/
def inTurn : Deployment → List Move → Bool
  | _, [] => true
  | d, move :: moves =>
    (move.call?.isNone || d.system.underway.isEmpty) && (d.perform move).inTurn moves

variable {d : Deployment} {m : Contents} {keys : List String} {returned : List (Call × Result)}

theorem perform_start_of_idle (h : d.system.underway = []) (unixSeconds : Int) (call : Call) :
    d.perform (.start unixSeconds call) =
      ⟨d.system.turned call (d.system.cluster.forgetAnswers.begin unixSeconds call),
        d.servers⟩ := by
  simp only [perform, System.step, System.fresh_of_idle h]

/-! ## Reads in turn -/

/-- Single reads of some keys, with what `m` has under them. -/
def answered (m : Contents) (keys : List String) : List (Call × Result) :=
  keys.map fun key => (.get key, .value (m.read key))

/-- Single reads, made one after the other. All have returned what is there, but for the
last, which may be under way. -/
inductive Singles (m : Contents) (returned : List (Call × Result)) (keys : List String)
    (d : Deployment) : Prop
  | idle (rests : d.Idle) (stores : d.contents = m)
      (returns : d.system.returned = returned ++ answered m keys)
  | underway (due : Ticket → Option ByteArray) (earlier : List String) (key : String) (i : Nat)
      (ticket : Ticket) (last : keys = earlier ++ [key])
      (returns : d.system.returned = returned ++ answered m earlier)
      (only : d.system.underway = [(.get key, .waits (.get key i ticket))])
      (onTheWay : d.system.cluster.Underway d.servers m due (.get key)
        (.waits (.get key i ticket)))
      (alone : d.system.cluster.Alone key i ticket)

/-- With nothing left to run and no call under way, a map that the client `Tracks` is
what is stored. -/
theorem idle_of_tracks {due : Ticket → Option ByteArray}
    (h : d.system.cluster.Tracks d.servers m due []) (hdrained : d.system.cluster.Drained)
    (hquiet : d.system.underway = []) : d.Idle ∧ d.contents = m := by
  refine ⟨⟨h.nonempty, h.running, fun n hn => ?_, hdrained, hquiet⟩, funext fun key => ?_⟩
  · obtain ⟨i, hi⟩ := List.getElem?_of_mem hn
    exact (h.nodes i n hi).healthy
  · have hn := List.getElem?_eq_getElem (h.nodeOf_lt key)
    have hcontents := h.contents _ _ hn List.not_mem_nil key rfl
    rw [hdrained _ (List.mem_of_getElem? hn), Contents.after_nil] at hcontents
    exact (contents_of_node hn).trans hcontents

/-- A `Stage` that the read comes to makes `Singles` of it. -/
theorem singles_turned {s : System} {servers : Nat → Server} {stage : Cluster.Stage}
    {earlier : List String} {key : String} (hquiet : s.underway = [])
    (hreturns : s.returned = returned ++ answered m earlier)
    (hstage : Cluster.ReadsOne servers m key stage) :
    Singles m returned (earlier ++ [key]) ⟨s.turned (.get key) stage, servers⟩ := by
  unfold Cluster.ReadsOne at hstage
  unfold System.turned
  cases hnext : stage.2 with
  | inl result =>
      rw [hnext] at hstage
      obtain ⟨rfl, ⟨due, htracks⟩, hdrained⟩ := hstage
      let next : System := { s with
        cluster := stage.1, returned := s.returned ++ [(.get key, .value (m.read key))] }
      obtain ⟨hidle, hstores⟩ := idle_of_tracks (d := ⟨next, servers⟩) htracks hdrained hquiet
      exact .idle hidle hstores (by simp [hreturns, answered])
  | inr progress =>
      rw [hnext] at hstage
      obtain ⟨due, i, ticket, rfl, honTheWay, halone⟩ := hstage
      exact .underway due earlier key i ticket rfl hreturns (by simp [hquiet]) honTheWay halone

/-- `Singles` when the next read starts. -/
theorem Singles.start (h : d.Singles m returned keys) (hquiet : d.system.underway = [])
    (unixSeconds : Int) (key : String) :
    (d.perform (.start unixSeconds (.get key))).Singles m returned (keys ++ [key]) := by
  cases h with
  | underway due earlier last i ticket _ _ honly _ _ => simp [hquiet] at honly
  | idle hrests hstores hreturns =>
      have htracks := hrests.tracks
      rw [hstores] at htracks
      have hbegin : d.system.cluster.forgetAnswers.begin unixSeconds (.get key) =
          (d.system.cluster.forgetAnswers.startGet key).stage := by
        have hrunning := htracks.running
        simp [Cluster.begin, Cluster.start, Cluster.startRunning, hrunning]
      rw [perform_start_of_idle hquiet, hbegin]
      exact singles_turned hquiet hreturns (htracks.startAlone hrests.drained rfl key)

/-- `Singles` when the read goes on. -/
theorem Singles.resume (h : d.Singles m returned keys) :
    (d.perform .resume).Singles m returned keys := by
  cases h with
  | idle hrests hstores hreturns =>
      rw [perform_resume_of_idle hrests.quiet]
      exact .idle hrests hstores hreturns
  | underway due earlier key i ticket hlast hreturns honly honTheWay halone =>
      rw [perform_resume honly, hlast]
      exact singles_turned rfl hreturns (honTheWay.resumeAlone halone)

/-- At rest, workers find nothing to do. -/
theorem Idle.work (h : d.Idle) {i : Nat} {n : Node} (hi : d.system.cluster.nodes[i]? = some n) :
    (d.perform (.work i)).Idle ∧ (d.perform (.work i)).contents = d.contents := by
  have hn := List.mem_of_getElem? hi
  have hserves := (h.healthy n hn).serves d.system.wants (d.servers i)
  obtain ⟨hbacklog, -, hcontents⟩ | ⟨c, hnext⟩ := hserves.shortens
  · obtain ⟨answered, hperform⟩ := perform_work hi
    rw [hperform, Cluster.worked_eq]
    refine ⟨⟨by simpa using h.nonempty, h.running, fun n' hn' => ?_, fun n' hn' => ?_, h.quiet⟩,
      funext fun key => ?_⟩
    · obtain hn' | rfl := List.mem_or_eq_of_mem_set hn'
      · exact h.healthy n' hn'
      · exact (h.healthy n hn).advance d.system.wants (d.servers i)
    · obtain hn' | rfl := List.mem_or_eq_of_mem_set hn'
      · exact h.drained n' hn'
      · exact hbacklog.trans (h.drained n hn)
    · simp only [contents, Cluster.nodeOf, List.length_set, Function.update_apply]
      split
      · rename_i hkey
        rw [hkey, Cluster.getElem?_set_of_some hi, hi, Option.bind_some,
          Option.bind_some, hcontents]
      · rename_i hkey
        rw [List.getElem?_set_ne (Ne.symm hkey)]
  · cases (h.drained n hn).symm.trans hnext

/-- `Singles` when a worker takes its next step. -/
theorem Singles.work (h : d.Singles m returned keys) (i : Nat) :
    (d.perform (.work i)).Singles m returned keys := by
  cases hi : d.system.cluster.nodes[i]? with
  | none => rwa [perform_work_none hi]
  | some n =>
      cases h with
      | idle hrests hstores hreturns =>
          obtain ⟨hidle, hcontents⟩ := hrests.work hi
          refine .idle hidle (hcontents.trans hstores) ?_
          obtain ⟨answered, hperform⟩ := perform_work hi
          rw [hperform]
          exact hreturns
      | underway due earlier key j ticket hlast hreturns honly honTheWay halone =>
          obtain ⟨answered, hperform⟩ := perform_work hi
          rw [hperform]
          refine .underway due earlier key j ticket hlast hreturns honly
            (honTheWay.work hi fun t ht => ?_) (honTheWay.workAlone halone hi _)
          simpa [System.wants, honly] using ht

/-- **Moves** of a caller that makes single reads one after the other, and of the
workers, keep `Singles`. -/
theorem Singles.after (h : d.Singles m returned keys) {moves : List Move} {more : List String}
    (hturn : d.inTurn moves = true) (hcalls : moves.filterMap Move.call? = more.map .get) :
    (d.after moves).Singles m returned (keys ++ more) := by
  induction moves generalizing d keys more with
  | nil =>
      obtain rfl : more = [] := by simpa using hcalls.symm
      simpa using h
  | cons move moves ih =>
      obtain ⟨hmove, hmoves⟩ : (move.call? = none ∨ d.system.underway = []) ∧
          (d.perform move).inTurn moves = true := by
        simpa [inTurn] using hturn
      cases move with
      | resume => exact ih h.resume hmoves hcalls
      | work i => exact ih (h.work i) hmoves hcalls
      | start unixSeconds call =>
          have hfirst : more.map .get = call :: moves.filterMap Move.call? := by
            simpa [Move.call?] using hcalls.symm
          obtain ⟨key, rest, rfl, rfl, hrest⟩ := List.map_eq_cons_iff.mp hfirst
          have hquiet : d.system.underway = [] := by simpa [Move.call?] using hmove
          simpa using ih (h.start hquiet unixSeconds key) hmoves hrest.symm

/-- `Singles` is `Steady`. -/
theorem steady_singles (m : Contents) (returned : List (Call × Result)) (keys : List String) :
    Steady fun d => d.Singles m returned keys := by
  refine ⟨fun d h i n hi => ?_, fun d i h => h.work i⟩
  cases h with
  | idle hrests hstores hreturns => exact hrests.healthy n (List.mem_of_getElem? hi)
  | underway due earlier key j ticket hlast hreturns honly honTheWay halone =>
      exact (honTheWay.tracks.nodes i n hi).healthy

/-- Once nothing is left to run, the read that is under way returns. -/
theorem Singles.goOn (h : d.Singles m returned keys) (hdrained : d.system.cluster.Drained) :
    d.admits .resume = true ∧ (d.perform .resume).Singles m returned keys ∧
      ∀ p ∈ (d.perform .resume).system.underway, ∃ q ∈ d.system.underway, p.2.toDo < q.2.toDo := by
  refine ⟨?_, h.resume, fun p hp => ?_⟩
  · cases h with
    | idle hrests hstores hreturns => simp [admits, hrests.quiet]
    | underway due earlier key i ticket hlast hreturns honly honTheWay halone =>
        simp [admits, honly, Cluster.acceptsNext]
  · cases h with
    | idle hrests hstores hreturns =>
        rw [perform_resume_of_idle hrests.quiet, hrests.quiet] at hp
        cases hp
    | underway due earlier key i ticket hlast hreturns honly honTheWay halone =>
        refine ⟨_, honly ▸ List.mem_singleton_self _, ?_⟩
        rw [perform_resume honly] at hp
        exact (honTheWay.goOn rfl).2 hdrained p.2 (System.progress_of_mem_turned rfl hp)

/-- Single reads can always be made to return. -/
theorem Singles.canFinish (h : d.Singles m returned keys) : d.CanFinish := by
  obtain ⟨moves, hcalls, -, hdone⟩ :=
    (steady_singles m returned keys).finish (fun _ h hdrained => h.goOn hdrained) h
  exact ⟨moves, hcalls, hdone⟩

/-- What has come of `Singles` that have returned. -/
theorem Singles.returns (h : d.Singles m returned keys) (hquiet : d.system.underway = []) :
    d.system.returned = returned ++ answered m keys := by
  cases h with
  | idle hrests hstores hreturns => exact hreturns
  | underway due earlier key i ticket hlast hreturns honly honTheWay halone =>
      simp [hquiet] at honly

end Deployment

end CacheService.Remote
