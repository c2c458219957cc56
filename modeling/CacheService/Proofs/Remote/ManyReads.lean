import CacheService.Proofs.Remote.Batch
import CacheService.Proofs.Remote.SingleReads

/-!
# CacheService.Proofs.Remote.ManyReads

A read of several keys beside single reads of each, on healthy nodes that have nothing
to run at first. What there is to be read is `Deployment.contents`: under each key, what
the node of the key finds on its server (`Node.dataAt`).

Single reads in turn never meet a full queue, since the queue of a node holds one of
them at most. A read of several keys does what they do as long as every node can queue
all listed keys that belong to it (`Cluster.Fits`); beyond that, reads may be refused,
and are misses and errors then.

* `ReadsMany` — what a read of several keys comes to in any case, and `ReadsEach` what
  single reads come to. `ReadsMany.readsEach` is the step from one to the other.
* `Deployment.Reads` — the call under way or returned, kept by every move of the call
  and of the workers (`Reads.after`).
-/

namespace CacheService.Remote

namespace Cluster

/-! ## What a read of several keys comes to -/

/-- How often keys are listed that belong to node `i`, of those that servers take. -/
def listed (c : Cluster) (i : Nat) (keys : List String) : Nat :=
  keys.countP fun key => isValidKey key && c.nodeOf key == i

/-- Whether every node can queue all listed keys that belong to it. -/
def Fits (c : Cluster) (keys : List String) : Prop :=
  ∀ (i : Nat) (n : Node), c.nodes[i]? = some n → c.listed i keys ≤ n.capacity

instance (c : Cluster) (keys : List String) : Decidable (c.Fits keys) :=
  decidable_of_iff (∀ i : Fin c.nodes.length, c.listed i keys ≤ c.nodes[i].capacity)
    ⟨fun h i n hn => by
      obtain ⟨hi, rfl⟩ := List.getElem?_eq_some_iff.mp hn
      exact h ⟨i, hi⟩,
    fun h i => h i _ (List.getElem?_eq_getElem i.isLt)⟩

/-- What a read of several keys comes to where `m` is there to be read: of the keys that
servers take, each is queued or refused in order. Those queued find what is there. A
refusal is a miss and an error, and a node refuses no more than the reads for which its
queue has no room. -/
structure ReadsMany (origin c : Cluster) (m : Contents) (keys : List String) (asked : List Ask)
    (found : Found) : Prop where
  inOrder : asked.map (·.1) = keys.filter isValidKey
  found : ∀ key : String, found[key]? = if (key, true) ∈ asked then m key else none
  refused : ∀ (i : Nat) (n : Node), origin.nodes[i]? = some n →
    origin.asksAt i false asked ≤ origin.listed i keys - n.capacity
  hits : c.hits = origin.hits + asked.countP (isHit m)
  misses : c.hits + c.misses = origin.hits + origin.misses + keys.length
  errors : c.errors = origin.errors + asked.countP fun p => !p.2
  timeouts : c.timeouts = origin.timeouts

/-- What a read of several keys comes to if it does what a single read of each does: the
values that `Contents.read` finds are returned, every key counts as a hit or a miss, and
nothing is an error. -/
structure ReadsEach (origin c : Cluster) (m : Contents) (keys : List String) (found : Found) :
    Prop where
  found : ∀ key : String, found[key]? = if key ∈ keys then m.read key else none
  hits : c.hits = origin.hits + keys.countP fun key => (m.read key).isSome
  misses : c.hits + c.misses = origin.hits + origin.misses + keys.length
  errors : c.errors = origin.errors
  timeouts : c.timeouts = origin.timeouts

variable {origin c : Cluster} {m : Contents} {keys : List String} {asked : List Ask} {found : Found}

/-- Every listed key that servers take has been queued or refused. -/
theorem asksAt_add (origin : Cluster)
    (hasked : asked.map (·.1) = keys.filter isValidKey) (i : Nat) :
    origin.asksAt i true asked + origin.asksAt i false asked = origin.listed i keys := by
  have hsplit : asked.countP (fun p => origin.nodeOf p.1 == i) =
      origin.asksAt i true asked + origin.asksAt i false asked := by
    rw [asked.countP_eq_countP_filter_add _ (·.2), List.countP_filter, List.countP_filter]
    simp [asksAt]
  calc origin.asksAt i true asked + origin.asksAt i false asked
      = (asked.map (·.1)).countP fun key => origin.nodeOf key == i := by
        rw [← hsplit, List.countP_map]
        rfl
    _ = origin.listed i keys := by
        rw [hasked, List.countP_filter]
        exact List.countP_congr fun key _ => by simp [and_comm]

/-- A `Reading` in which all keys have been settled is a `ReadsMany`. -/
theorem Reading.readsMany {servers : Nat → Server} {due : Ticket → Option ByteArray}
    (h : Reading origin servers m due c asked [] [] (keys.countP (!isValidKey ·)))
    (hasked : asked.map (·.1) = keys.filter isValidKey) (hfound : Finds m asked found) :
    ReadsMany origin c m keys asked found := by
  obtain ⟨hhits, hmisses, herrors, htimeouts⟩ := h.counted
  refine ⟨hasked, fun key => ?_, fun i n hn => ?_, hhits, ?_, herrors, htimeouts⟩
  · rw [hfound key]
    simp
  · have hsum := origin.asksAt_add hasked i
    have hcapacity : (c.nodes[i]?).map Node.capacity = some n.capacity := by
      rw [← List.getElem?_map, h.rations.capacities, List.getElem?_map, hn]
      rfl
    obtain ⟨n', hn', hcapacity⟩ := Option.map_eq_some_iff.mp hcapacity
    obtain hnone | hfull := h.rations.refused i n' hn'
    · rw [List.append_nil] at hnone
      omega
    · rw [List.append_nil] at hfull
      omega
  · have hlength : asked.length = (keys.filter isValidKey).length := by
      rw [← hasked, List.length_map]
    have hkeys : keys.length = keys.countP isValidKey + keys.countP (!isValidKey ·) := by
      simpa using keys.length_eq_countP_add_countP isValidKey
    rw [← List.countP_eq_length_filter] at hlength
    omega

/-- With room for all listed keys (`Fits`), a read of several does what single reads do. -/
theorem ReadsMany.readsEach (h : ReadsMany origin c m keys asked found) (hnodes : origin.nodes ≠ [])
    (hfits : origin.Fits keys) : ReadsEach origin c m keys found := by
  have hqueued (p : Ask) (hp : p ∈ asked) : p.2 = true := by
    by_contra hrefused
    have hlt : origin.nodeOf p.1 < origin.nodes.length :=
      nodeIndex_lt _ (List.length_pos_iff.mpr hnodes)
    have hnone := h.refused _ _ (List.getElem?_eq_getElem hlt)
    have hroom := hfits _ _ (List.getElem?_eq_getElem hlt)
    have hsome : 0 < origin.asksAt (origin.nodeOf p.1) false asked :=
      List.countP_pos_iff.mpr ⟨p, hp, by simpa using hrefused⟩
    omega
  have hasked : asked = (keys.filter isValidKey).map (·, true) := by
    have hsame : asked.map (fun p => (p.1, true)) = asked.map id :=
      List.map_congr_left fun p hp => Prod.ext rfl (hqueued p hp).symm
    rw [← h.inOrder, List.map_map]
    exact (hsame.trans (List.map_id asked)).symm
  have hhits : asked.countP (isHit m) = keys.countP fun key => (m.read key).isSome := by
    rw [hasked, List.countP_map, List.countP_filter]
    refine List.countP_congr fun key _ => ?_
    cases hvalid : isValidKey key <;> simp [isHit, Contents.read, hvalid]
  have herrors : (asked.countP fun p => !p.2) = 0 :=
    List.countP_eq_zero.mpr fun p hp => by simp [hqueued p hp]
  refine ⟨fun key => ?_, by rw [h.hits, hhits], h.misses, by rw [h.errors, herrors, Nat.add_zero],
    h.timeouts⟩
  rw [h.found, hasked, Contents.read]
  cases hvalid : isValidKey key <;> simp [hvalid]

end Cluster

namespace Deployment

open Cluster (Call Progress Result)

variable {d : Deployment} {m : Contents} {keys : List String} {returned : List (Call × Result)}

/-! ## One read of several keys -/

/-- A read of several keys that has begun, and is under way or has returned. -/
inductive Reads (origin : Cluster) (m : Contents) (keys : List String)
    (returned : List (Call × Result)) (d : Deployment) : Prop
  | underway (progress : Progress) (only : d.system.underway = [(.getMany keys, progress)])
      (returns : d.system.returned = returned)
      (onTheWay : Cluster.Batching origin d.servers m keys d.system.cluster progress)
  | returned (due : Ticket → Option ByteArray) (asked : List Ask) (found : Found)
      (none : d.system.underway = [])
      (returns : d.system.returned = returned ++ [(.getMany keys, .found found)])
      (reading : Cluster.Reading origin d.servers m due d.system.cluster asked [] []
        (keys.countP (!isValidKey ·)))
      (inOrder : asked.map (·.1) = keys.filter isValidKey) (finds : Cluster.Finds m asked found)

variable {origin : Cluster}

/-- A `Stage` that the call comes to makes a `Reads` of it. -/
theorem reads_turned {s : System} {servers : Nat → Server} {stage : Cluster.Stage}
    (hquiet : s.underway = []) (hreturns : s.returned = returned)
    (hstage : Cluster.Comes origin servers m keys stage) :
    Reads origin m keys returned ⟨s.turned (.getMany keys) stage, servers⟩ := by
  unfold Cluster.Comes at hstage
  unfold System.turned
  cases hnext : stage.2 with
  | inl result =>
      rw [hnext] at hstage
      obtain ⟨due, asked, found, rfl, hreading, hinOrder, hfinds⟩ := hstage
      exact .returned due asked found hquiet (by rw [hreturns]) hreading hinOrder hfinds
  | inr progress =>
      rw [hnext] at hstage
      exact .underway progress (by simp [hquiet]) hreturns hstage

/-- A read of several keys starts where `Idle` has nothing to run. -/
theorem Idle.reads (h : d.Idle) (unixSeconds : Int) (keys : List String) :
    Reads d.system.cluster d.contents keys d.system.returned
      (d.perform (.start unixSeconds (.getMany keys))) := by
  have hbegin : d.system.cluster.forgetAnswers.begin unixSeconds (.getMany keys) =
      (d.system.cluster.forgetAnswers, .inr (.queues keys [])) :=
    if_neg (by simp [Cluster.forgetAnswers, h.running])
  rw [perform_start_of_idle h.quiet, hbegin]
  exact reads_turned h.quiet rfl (h.tracks.batching h.drained keys)

/-- `Reads` goes through a move of the call. -/
theorem Reads.resume (h : d.Reads origin m keys returned) :
    (d.perform .resume).Reads origin m keys returned := by
  cases h with
  | underway progress honly hreturns honTheWay =>
      rw [perform_resume honly]
      exact reads_turned rfl hreturns honTheWay.goOn.1
  | returned due asked found hnone hreturns hreading hinOrder hfinds =>
      rw [perform_resume_of_idle hnone]
      exact .returned due asked found hnone hreturns hreading hinOrder hfinds

/-- `Reads` goes through a move of a worker. -/
theorem Reads.work (h : d.Reads origin m keys returned) (i : Nat) :
    (d.perform (.work i)).Reads origin m keys returned := by
  cases hi : d.system.cluster.nodes[i]? with
  | none => rwa [perform_work_none hi]
  | some n =>
      obtain ⟨answered, hperform⟩ := perform_work hi
      rw [hperform]
      cases h with
      | underway progress honly hreturns honTheWay =>
          refine .underway progress honly hreturns (honTheWay.work hi fun t ht => ?_)
          simpa [System.wants, honly] using ht
      | returned due asked found hnone hreturns hreading hinOrder hfinds =>
          exact .returned due asked found hnone hreturns
            (hreading.work hi (by simp)) hinOrder hfinds

/-- **Moves** of the call and of the workers keep `Reads`, step by step. -/
theorem Reads.after (h : d.Reads origin m keys returned) {moves : List Move}
    (hcalls : ∀ move ∈ moves, move.call? = none) :
    (d.after moves).Reads origin m keys returned := by
  induction moves generalizing d with
  | nil => exact h
  | cons move moves ih =>
      refine ih ?_ fun move' hmove => hcalls move' (List.mem_cons_of_mem move hmove)
      cases move with
      | start unixSeconds call => cases hcalls _ List.mem_cons_self
      | resume => exact h.resume
      | work i => exact h.work i

/-- Whatever the call has come to, there is one map that its client `Tracks`. -/
theorem Reads.tracks (h : d.Reads origin m keys returned) :
    ∃ due, d.system.cluster.Tracks d.servers m due [] := by
  cases h with
  | underway progress honly hreturns honTheWay => exact Cluster.Batching.tracks honTheWay
  | returned due asked found hnone hreturns hreading hinOrder hfinds => exact ⟨due, hreading.tracks⟩

/-- `Reads` is `Steady`: workers can always run until nothing is left. -/
theorem steady_reads (origin : Cluster) (m : Contents) (keys : List String)
    (returned : List (Call × Result)) : Steady fun d => d.Reads origin m keys returned := by
  refine ⟨fun d h i n hi => ?_, fun d i h => h.work i⟩
  obtain ⟨due, htracks⟩ := h.tracks
  exact (htracks.nodes i n hi).healthy

/-- Once nothing is left to run, the call gets ahead. -/
theorem Reads.goOn (h : d.Reads origin m keys returned) (hdrained : d.system.cluster.Drained) :
    d.admits .resume = true ∧ (d.perform .resume).Reads origin m keys returned ∧
      ∀ p ∈ (d.perform .resume).system.underway, ∃ q ∈ d.system.underway, p.2.toDo < q.2.toDo := by
  obtain ⟨due, htracks⟩ := h.tracks
  refine ⟨by simp [admits, htracks.acceptsNext hdrained], h.resume, fun p hp => ?_⟩
  cases h with
  | underway progress honly hreturns honTheWay =>
      refine ⟨(.getMany keys, progress), by simp [honly], ?_⟩
      rw [perform_resume honly] at hp
      exact honTheWay.goOn.2 hdrained p.2 (System.progress_of_mem_turned rfl hp)
  | returned due asked found hnone hreturns hreading hinOrder hfinds =>
      rw [perform_resume_of_idle hnone, hnone] at hp
      cases hp

/-- A read of several keys can always be made to return. -/
theorem Reads.canFinish (h : d.Reads origin m keys returned) : d.CanFinish := by
  obtain ⟨moves, hcalls, -, hdone⟩ :=
    (steady_reads origin m keys returned).finish (fun _ h hdrained => h.goOn hdrained) h
  exact ⟨moves, hcalls, hdone⟩

/-- What has come of a read of several keys that has returned. -/
theorem Reads.readsMany (h : d.Reads origin m keys returned) (hnone : d.system.underway = []) :
    ∃ asked found, d.system.returned = returned ++ [(.getMany keys, .found found)] ∧
      origin.ReadsMany d.system.cluster m keys asked found := by
  cases h with
  | underway progress honly hreturns honTheWay => simp [hnone] at honly
  | returned due asked found hnone hreturns hreading hinOrder hfinds =>
      exact ⟨asked, found, hreturns, hreading.readsMany hinOrder hfinds⟩

/-! ## Reads of several keys and single reads -/

/-- **A read of several keys** beside single reads of each, on any number of healthy
nodes that have nothing to run at first, while workers take their steps whenever they
like. Single reads in turn return what is there to be read (`contents`). A read of
several keys can always be made to return; it loses only reads that a full queue has
refused, each of which is a miss and an error, and a node refuses no more than those for
which its queue has no room. If every node can queue all listed keys that belong to it,
exactly the values that single reads find are returned, every listed key is a hit or a
miss, and there is no error. -/
theorem getMany_of_idle (h : d.Idle) (unixSeconds : Int) (keys : List String) :
    (∀ moves : List Move, (∀ move ∈ moves, move.call? = none) →
      let d' := (d.perform (.start unixSeconds (.getMany keys))).after moves
      d'.CanFinish ∧ (d'.system.underway = [] → ∃ asked found,
        d'.system.returned = d.system.returned ++ [(.getMany keys, .found found)] ∧
        d.system.cluster.ReadsMany d'.system.cluster d.contents keys asked found ∧
        (d.system.cluster.Fits keys →
          d.system.cluster.ReadsEach d'.system.cluster d.contents keys found))) ∧
    ∀ moves : List Move, d.inTurn moves = true → moves.filterMap Move.call? = keys.map .get →
      (d.after moves).CanFinish ∧ ((d.after moves).system.underway = [] →
        (d.after moves).system.returned = d.system.returned ++ answered d.contents keys) := by
  refine ⟨fun moves hcalls => ?_, fun moves hturn hcalls => ?_⟩
  · have hreads := (h.reads unixSeconds keys).after hcalls
    refine ⟨hreads.canFinish, fun hquiet => ?_⟩
    obtain ⟨asked, found, hreturned, hmany⟩ := hreads.readsMany hquiet
    exact ⟨asked, found, hreturned, hmany, hmany.readsEach h.nonempty⟩
  · have hbegun : d.Singles d.contents d.system.returned [] :=
      .idle h rfl (by simp [answered])
    have hsingles := hbegun.after hturn hcalls
    exact ⟨hsingles.canFinish, hsingles.returns⟩

/-- A key that is listed twice, one that is not stored and one that no server takes, on
two nodes whose queues hold two commands: one of them is full before its worker starts. -/
theorem getMany_of_idle_repeated :
    let settings : RemoteSettings := ⟨[⟨"a", 1⟩, ⟨"b", 2⟩], .ofSeconds 1, 2, none, none⟩
    let c : Cluster :=
      { timeout := settings.timeout, nodes := settings.nodes.map (Node.create settings) }
    let server : Server :=
      { address := ⟨"a", 1⟩, items := .ofList [("k", (⟨#[7]⟩ : ByteArray), (0 : Int))] }
    let d : Deployment := ⟨{ cluster := c }, fun _ => server⟩
    let keys := ["k", "b", "k", "no key"]
    let moves : List Move := .replicate 4 .resume ++
      .replicate 5 (.work 0) ++ [.resume] ++ .replicate 3 (.work 1) ++ [.resume]
    let d' := (d.perform (.start 0 (.getMany keys))).after moves
    d'.system.underway = [] ∧
      (∃ found, d'.system.returned = [(.getMany keys, .found found)] ∧
        c.ReadsEach d'.system.cluster d.contents keys found) ∧
      (d'.system.cluster.hits, d'.system.cluster.misses, d'.system.cluster.errors) = (2, 2, 0) := by
  intro settings c server d keys moves d'
  have hc : Cluster.create settings = .ok c := rfl
  have hcalls : ∀ move ∈ moves, move.call? = none := by decide +kernel
  have hquiet : d'.system.underway = [] := by
    rw [← List.isEmpty_iff]
    decide +kernel
  have hfits : c.Fits keys := by decide +kernel
  obtain ⟨-, hreturns⟩ := (getMany_of_idle (idle_create hc fun _ => server) 0 keys).1 moves hcalls
  obtain ⟨asked, found, hreturned, -, hfound⟩ := hreturns hquiet
  exact ⟨hquiet, ⟨found, hreturned, hfound hfits⟩, by decide +kernel⟩

/-- The queue of the only node holds one command, and two keys are stored. The second
read is refused while the first is still queued, so a stored value is not returned and
an error is counted. -/
theorem getMany_refused :
    let settings : RemoteSettings := ⟨[⟨"a", 1⟩], .ofSeconds 1, 1, none, none⟩
    let c : Cluster :=
      { timeout := settings.timeout, nodes := settings.nodes.map (Node.create settings) }
    let server : Server :=
      { address := ⟨"a", 1⟩
        items := .ofList [("a", (⟨#[1]⟩ : ByteArray), (0 : Int)), ("b", ⟨#[2]⟩, 0)] }
    let d : Deployment := ⟨{ cluster := c }, fun _ => server⟩
    let moves : List Move := [.resume, .resume] ++ .replicate 4 (.work 0) ++ [.resume]
    let d' := (d.perform (.start 0 (.getMany ["a", "b"]))).after moves
    d'.system.underway.isEmpty = true ∧
      (d.contents.read "a", d.contents.read "b") = (some ⟨#[1]⟩, some ⟨#[2]⟩) ∧
      (d'.system.returned.filterMap fun p => match p with
        | (.getMany _, .found found) => some (found["a"]?, found["b"]?)
        | _ => none) = [(some ⟨#[1]⟩, none)] ∧
      (d'.system.cluster.hits, d'.system.cluster.misses, d'.system.cluster.errors) = (1, 1, 1) := by
  decide +kernel

end Deployment

end CacheService.Remote
