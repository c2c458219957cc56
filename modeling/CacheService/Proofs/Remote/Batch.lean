import CacheService.Proofs.Remote.Calls

/-!
# CacheService.Proofs.Remote.Batch

What becomes of the reads of one call while nodes are healthy and nothing else is
queued. The reads of several keys are queued before the first answer is awaited, so a
read may meet a queue that earlier reads of the call have filled, and is refused then.

* `Ask` — a read of the call, and whether it has been queued. `Cluster.Rations` says
  what the nodes have taken: a node refuses a read only once it has taken as many as its
  queue holds.
* `Cluster.Counted` — what the client has counted of the reads that are settled.
* `Cluster.Reading` — the reads through the call: which of them have been queued, what
  they will find, and what has been counted. `Reading.ask` queues one, `Reading.settle`
  settles one, and `Reading.work` is a step of a worker.
* `Cluster.Batching` and `Cluster.Comes` — how far the call has got.
-/

namespace CacheService.Remote

/-- A read of a valid key, and whether it has been queued. -/
abbrev Ask := String × Bool

namespace Cluster

/-! ## Refusals -/

/-- The reads of node `i` that have been queued, or refused. -/
def asksAt (c : Cluster) (i : Nat) (queued : Bool) (asked : List Ask) : Nat :=
  asked.countP fun p => c.nodeOf p.1 == i && p.2 == queued

/-- What the nodes of a client have taken of some reads, while its workers run: no more
than those is left, and only a node that has taken a whole queue of them has refused
any. -/
structure Rations (origin c : Cluster) (asked : List Ask) : Prop where
  capacities : c.nodes.map Node.capacity = origin.nodes.map Node.capacity
  backlog : ∀ (i : Nat) (n : Node), c.nodes[i]? = some n →
    n.backlog.length ≤ origin.asksAt i true asked
  refused : ∀ (i : Nat) (n : Node), c.nodes[i]? = some n →
    origin.asksAt i false asked = 0 ∨ n.capacity ≤ origin.asksAt i true asked

/-! ## Counters -/

/-- What a read is counted as: a hit if it has been queued and finds something in `m`. -/
def isHit (m : Contents) (p : Ask) : Bool := p.2 && (m p.1).isSome

/-- The counters of a client after `invalid` misses for invalid keys and some reads. -/
structure Counted (origin c : Cluster) (m : Contents) (invalid : Nat)
    (settled : List Ask) : Prop where
  hits : c.hits = origin.hits + settled.countP (isHit m)
  misses : c.hits + c.misses = origin.hits + origin.misses + invalid + settled.length
  errors : c.errors = origin.errors + settled.countP fun p => !p.2
  timeouts : c.timeouts = origin.timeouts

/-! ## Reads on their way -/

/-- A read of a call as it was asked: queued, or refused with an error that is neither
one of the state nor a timeout. -/
structure Pends (origin : Cluster) (p : Ask) (read : PendingRead) : Prop where
  key : read.key = p.1
  node : read.node = origin.nodeOf p.1
  answer : match read.answer with
    | .ok _ => p.2 = true
    | .error e => p.2 = false ∧ e.isIllegalState = false ∧ e.isTimeout = false

/-- The reads of one call: those `settled`, in order, and those that were `asked` and
pend. -/
structure Reading (origin : Cluster) (servers : Nat → Server) (m : Contents)
    (due : Ticket → Option ByteArray) (c : Cluster) (settled asked : List Ask)
    (reads : List PendingRead) (invalid : Nat) : Prop where
  tracks : c.Tracks servers m due []
  pends : List.Forall₂ (Pends origin) asked reads
  due : ∀ read ∈ reads, ∀ ticket, read.answer = .ok ticket →
    due ticket = m read.key ∧ c.Awaits read.node ticket
  rations : origin.Rations c (settled ++ asked)
  counted : origin.Counted c m invalid settled

/-- Values that have been found by those reads that were queued. -/
def Finds (m : Contents) (settled : List Ask) (found : Found) : Prop :=
  Collects m ((settled.filter (·.2)).map (·.1)) found

variable {origin c c' : Cluster} {servers : Nat → Server} {m : Contents}
  {due due' : Ticket → Option ByteArray} {settled asked : List Ask} {reads : List PendingRead}
  {invalid i : Nat} {n n' : Node} {found : Found}

/-- `nodeOf` depends on the number of nodes only. -/
theorem nodeOf_of_capacities (h : c.nodes.map Node.capacity = origin.nodes.map Node.capacity)
    (key : String) : c.nodeOf key = origin.nodeOf key := by
  have hlength : c.nodes.length = origin.nodes.length := by
    rw [← List.length_map (f := Node.capacity), h, List.length_map]
  simp only [nodeOf, hlength]

/-- A node that is put back with its capacity leaves all capacities as they are. -/
theorem capacities_set (hi : c.nodes[i]? = some n) (hcapacity : n'.capacity = n.capacity) :
    (c.nodes.set i n').map Node.capacity = c.nodes.map Node.capacity := by
  refine List.ext_getElem? fun j => ?_
  rw [List.getElem?_map, List.getElem?_map]
  by_cases hj : j = i
  · subst hj
    rw [getElem?_set_of_some hi, hi, Option.map_some, Option.map_some, hcapacity]
  · rw [List.getElem?_set_ne (Ne.symm hj)]

/-- One more read counts for its own node. -/
theorem asksAt_append (c : Cluster) (i : Nat) (queued : Bool) (asked : List Ask) (p : Ask) :
    c.asksAt i queued (asked ++ [p]) =
      c.asksAt i queued asked + if c.nodeOf p.1 = i ∧ p.2 = queued then 1 else 0 := by
  simp [asksAt, List.countP_append, List.countP_cons]

/-- `Rations` looks at the nodes only. -/
theorem Rations.congr (h : origin.Rations c asked) (hnodes : c'.nodes = c.nodes) :
    origin.Rations c' asked :=
  ⟨hnodes ▸ h.capacities, fun i n hn => h.backlog i n (hnodes ▸ hn),
    fun i n hn => h.refused i n (hnodes ▸ hn)⟩

/-- `Rations` when a node is put back with no more commands than it had. -/
theorem Rations.set (h : origin.Rations c asked) (hi : c.nodes[i]? = some n)
    (hcapacity : n'.capacity = n.capacity) (hnodes : c'.nodes = c.nodes.set i n')
    (hbacklog : n'.backlog.length ≤ n.backlog.length) : origin.Rations c' asked := by
  refine ⟨?_, fun j k hj => ?_, fun j k hj => ?_⟩
  · rw [hnodes, capacities_set hi hcapacity, h.capacities]
  · rw [hnodes] at hj
    obtain ⟨rfl, rfl⟩ | ⟨-, hj⟩ := getElem?_set_cases hj
    · exact hbacklog.trans (h.backlog j n hi)
    · exact h.backlog j k hj
  · rw [hnodes] at hj
    obtain ⟨rfl, rfl⟩ | ⟨-, hj⟩ := getElem?_set_cases hj
    · exact hcapacity ▸ h.refused j n hi
    · exact h.refused j k hj

/-- `Rations` when a node takes one more read. -/
theorem Rations.queue (h : origin.Rations c asked) {key : String} {command : Command}
    (hi : c.nodes[origin.nodeOf key]? = some n) (hcapacity : n'.capacity = n.capacity)
    (hnodes : c'.nodes = c.nodes.set (origin.nodeOf key) n')
    (hbacklog : n'.backlog = n.backlog ++ [command]) :
    origin.Rations c' (asked ++ [(key, true)]) := by
  refine ⟨?_, fun j k hj => ?_, fun j k hj => ?_⟩
  · rw [hnodes, capacities_set hi hcapacity, h.capacities]
  · rw [hnodes] at hj
    rw [asksAt_append]
    obtain ⟨rfl, rfl⟩ | ⟨-, hj⟩ := getElem?_set_cases hj
    · have hold := h.backlog _ n hi
      simp only [hbacklog, List.length_append, List.length_singleton, true_and, if_true]
      omega
    · exact (h.backlog j k hj).trans (Nat.le_add_right ..)
  · rw [hnodes] at hj
    have hnone : origin.asksAt j false (asked ++ [(key, true)]) = origin.asksAt j false asked := by
      simp [asksAt_append]
    have hmore : origin.asksAt j true asked ≤ origin.asksAt j true (asked ++ [(key, true)]) := by
      rw [asksAt_append]
      exact Nat.le_add_right ..
    rw [hnone]
    obtain ⟨rfl, rfl⟩ | ⟨-, hj⟩ := getElem?_set_cases hj
    · exact (h.refused _ n hi).imp_right fun hfull => hcapacity ▸ hfull.trans hmore
    · exact (h.refused j k hj).imp_right fun hfull => hfull.trans hmore

/-- `Rations` when a node refuses one more read: its queue is full. -/
theorem Rations.refuse (h : origin.Rations c asked) {key : String}
    (hi : c.nodes[origin.nodeOf key]? = some n) (hfull : n.capacity ≤ n.queue.length) :
    origin.Rations c (asked ++ [(key, false)]) := by
  have hsame (j : Nat) :
      origin.asksAt j true (asked ++ [(key, false)]) = origin.asksAt j true asked := by
    simp [asksAt_append]
  refine ⟨h.capacities, fun j k hj => (h.backlog j k hj).trans (hsame j).ge, fun j k hj => ?_⟩
  rw [hsame]
  by_cases hkey : origin.nodeOf key = j
  · subst hkey
    obtain rfl : n = k := Option.some.inj (hi.symm.trans hj)
    have hqueue : n.queue.length ≤ n.backlog.length := by
      simp [Node.backlog]
    exact .inr ((hfull.trans hqueue).trans (h.backlog _ n hi))
  · have hnone : origin.asksAt j false (asked ++ [(key, false)]) = origin.asksAt j false asked := by
      simp [asksAt_append, hkey]
    exact hnone ▸ h.refused j k hj

/-! ## Settling reads -/

/-- `Tracks` does not look at the counters. -/
theorem Tracks.congr {rest : List Nat} (h : c.Tracks servers m due rest)
    (hnodes : c'.nodes = c.nodes)
    (hstopped : c'.stopped = c.stopped) (harrived : c'.arrived = c.arrived)
    (hnext : c'.nextTicket = c.nextTicket) : c'.Tracks servers m due rest := by
  have hkeys (key : String) : c'.nodeOf key = c.nodeOf key := by simp only [nodeOf, hnodes]
  refine ⟨hnodes ▸ h.nonempty, hstopped ▸ h.running, fun i n hn => ?_, fun p hp => ?_,
    fun i n hn hi key hkey => ?_⟩
  · exact hnext ▸ h.nodes i n (hnodes ▸ hn)
  · exact hnext ▸ h.arrived p (harrived ▸ hp)
  · exact h.contents i n (hnodes ▸ hn) hi key (hkeys key ▸ hkey)

/-- `settleRead` only counts. -/
theorem settleRead_same (c : Cluster) (key : String) (finding : Finding) :
    (c.settleRead key finding).2.1.nodes = c.nodes ∧
      (c.settleRead key finding).2.1.stopped = c.stopped ∧
      (c.settleRead key finding).2.1.arrived = c.arrived ∧
      (c.settleRead key finding).2.1.nextTicket = c.nextTicket := by
  unfold settleRead
  split
  · exact ⟨rfl, rfl, rfl, rfl⟩
  · exact ⟨rfl, rfl, rfl, rfl⟩
  · dsimp only
    split <;> exact ⟨rfl, rfl, rfl, rfl⟩

/-- What a read comes to: what the map has if it was queued, else an error that is no
timeout. -/
def ComesTo (m : Contents) (p : Ask) : Finding → Prop
  | .ok value => p.2 = true ∧ value = m p.1
  | .error e => p.2 = false ∧ e.isTimeout = false

/-- `Counted` goes on with one read that is settled. -/
theorem Counted.settle (h : origin.Counted c m invalid settled) {p : Ask} {finding : Finding}
    (hfinding : ComesTo m p finding) (key : String) :
    origin.Counted (c.settleRead key finding).2.1 m invalid (settled ++ [p]) := by
  obtain ⟨hhits, hmisses, herrors, htimeouts⟩ := h
  cases finding with
  | ok value =>
      obtain ⟨hqueued, rfl⟩ := hfinding
      cases hm : m p.1 with
      | none =>
          constructor <;> simp [settleRead, List.countP_append, isHit, hqueued, hm] <;> omega
      | some value =>
          constructor <;> simp [settleRead, List.countP_append, isHit, hqueued, hm] <;> omega
  | error e =>
      obtain ⟨hrefused, he⟩ := hfinding
      constructor <;> simp [settleRead, List.countP_append, isHit, hrefused, he] <;> omega

/-- `Finds` goes on with one read that is settled. -/
theorem Finds.settle (h : Finds m settled found) {p : Ask} {finding : Finding}
    (hfinding : ComesTo m p finding) (c : Cluster) :
    Finds m (settled ++ [p]) (addFound found p.1 (c.settleRead p.1 finding).1) := by
  unfold Finds at h ⊢
  rw [List.filter_append, List.map_append]
  cases finding with
  | ok value =>
      obtain ⟨hqueued, rfl⟩ := hfinding
      have hvalue : (c.settleRead p.1 (.ok (m p.1))).1 = m p.1 := by
        cases m p.1 <;> rfl
      rw [hvalue]
      simpa [hqueued] using h.addFound p.1
  | error e =>
      obtain ⟨hrefused, he⟩ := hfinding
      have hnone : (c.settleRead p.1 (.error e)).1 = none := by simp [settleRead, he]
      rw [hnone]
      simpa [hrefused, addFound] using h

/-- **One read is settled**, with what it comes to (`ComesTo`). -/
theorem Reading.settle {p : Ask} {read : PendingRead} {finding : Finding}
    (h : Reading origin servers m due c settled (p :: asked) (read :: reads) invalid)
    (hfinding : ComesTo m p finding) :
    Reading origin servers m due (c.settleRead read.key finding).2.1 (settled ++ [p]) asked reads
      invalid := by
  obtain ⟨hnodes, hstopped, harrived, hnext⟩ := c.settleRead_same read.key finding
  obtain ⟨htracks, hpends, hdue, hrations, hcounted⟩ := h
  refine ⟨htracks.congr hnodes hstopped harrived hnext, (List.forall₂_cons.mp hpends).2,
    fun r hr ticket hanswer => ?_, ?_, hcounted.settle hfinding read.key⟩
  · simpa only [Awaits, hnodes, harrived] using hdue r (List.mem_cons_of_mem read hr) ticket hanswer
  · rw [List.append_assoc]
    exact hrations.congr hnodes

/-- `settleReads` takes a read that was refused and goes on to the others. -/
theorem settleReads_of_error {late : Bool} {read : PendingRead} {e : CacheError}
    (hanswer : read.answer = .error e) (he : e.isIllegalState = false) :
    ∃ notices, c.settleReads late found (read :: reads) =
      { (c.settleRead read.key (.error e)).2.1.settleReads late
          (addFound found read.key (c.settleRead read.key (.error e)).1) reads with notices } := by
  simp only [Cluster.settleReads, hanswer, he]
  exact ⟨_, rfl⟩

/-! ## The call -/

/-- How far a read of several keys has got. -/
def Batching (origin : Cluster) (servers : Nat → Server) (m : Contents) (keys : List String)
    (c : Cluster) : Progress → Prop
  | .queues left reads =>
      ∃ due asked invalid, Reading origin servers m due c [] asked reads invalid ∧
      asked.map (·.1) ++ left.filter isValidKey = keys.filter isValidKey ∧
      invalid + left.countP (!isValidKey ·) = keys.countP (!isValidKey ·)
  | .waits (.getMany _ reads found) => ∃ due settled asked,
      Reading origin servers m due c settled asked reads (keys.countP (!isValidKey ·)) ∧
      (settled ++ asked).map (·.1) = keys.filter isValidKey ∧ Finds m settled found
  | .waits _ => False

/-- What a read of several keys has come to, or that it is on the way (`Batching`). -/
def Comes (origin : Cluster) (servers : Nat → Server) (m : Contents) (keys : List String)
    (stage : Stage) : Prop :=
  match stage.2 with
  | .inl result => ∃ due settled found, result = .found found ∧
      Reading origin servers m due stage.1 settled [] [] (keys.countP (!isValidKey ·)) ∧
      settled.map (·.1) = keys.filter isValidKey ∧ Finds m settled found
  | .inr progress => Batching origin servers m keys stage.1 progress

/-- Reads are settled as far as their answers are there. -/
theorem Reading.settleReads {keys : List String}
    (h : Reading origin servers m due c settled asked reads (keys.countP (!isValidKey ·)))
    (hkeys : (settled ++ asked).map (·.1) = keys.filter isValidKey)
    (hfound : Finds m settled found) :
    Comes origin servers m keys (c.settleReads false found reads).stage ∧
      (c.Drained → ∃ result, (c.settleReads false found reads).next = .inl result) := by
  -- A refusal is settled at once; of the others, the first whose answer is not there
  -- ends the step.
  induction reads generalizing c settled asked found with
  | nil =>
      obtain rfl : asked = [] := List.forall₂_nil_right_iff.mp h.pends
      exact ⟨⟨due, settled, found, rfl, h, by simpa using hkeys, hfound⟩, fun _ => ⟨_, rfl⟩⟩
  | cons read reads ih =>
      obtain ⟨p, asked, hpends, -, rfl⟩ := List.forall₂_cons_right_iff.mp h.pends
      have hkeys' : (settled ++ [p] ++ asked).map (·.1) = keys.filter isValidKey := by
        simpa using hkeys
      have hgoesOn {finding : Finding} (hfinding : ComesTo m p finding)
          (hturn : ∃ notices, c.settleReads false found (read :: reads) =
            { (c.settleRead read.key finding).2.1.settleReads false
                (addFound found read.key (c.settleRead read.key finding).1) reads with notices }) :
          Comes origin servers m keys (c.settleReads false found (read :: reads)).stage ∧
            (c.Drained → ∃ result,
              (c.settleReads false found (read :: reads)).next = .inl result) := by
        obtain ⟨notices, hturn⟩ := hturn
        have hsame := (c.settleRead_same read.key finding).1
        have hnext := ih (h.settle hfinding) hkeys' (hpends.key ▸ hfound.settle hfinding c)
        rw [hturn]
        exact ⟨hnext.1, fun hd => hnext.2 fun n hn => hd n (hsame ▸ hn)⟩
      have hanswer := hpends.answer
      cases hread : read.answer with
      | error e =>
          rw [hread] at hanswer
          obtain ⟨hrefused, hstate, htimeout⟩ := hanswer
          have hfinding : ComesTo m p (.error e) := ⟨hrefused, htimeout⟩
          exact hgoesOn hfinding (settleReads_of_error hread hstate)
      | ok ticket =>
          rw [hread] at hanswer
          obtain ⟨hdue, hawaits⟩ := h.due read List.mem_cons_self ticket hread
          have hfinding : ComesTo m p (.ok (due ticket)) := ⟨hanswer, hpends.key ▸ hdue⟩
          obtain houtcome | ⟨houtcome, hdrained⟩ := h.tracks.outcome hawaits
          · exact hgoesOn hfinding (settleReads_of_some hread houtcome)
          · rw [settleReads_of_none hread houtcome]
            exact ⟨⟨due, settled, p :: asked, h, hkeys, hfound⟩, fun hd => absurd hd hdrained⟩

/-! ## Queueing reads -/

/-- A read that is taken adds to the backlog of its node only, and is not counted yet. -/
theorem Reading.queued (h : Reading origin servers m due c settled asked reads invalid)
    {key : String} {ticket : Ticket}
    (hsubmit : c.submit (c.nodeOf key) (.get key) = (c', .ok ticket)) :
    origin.Rations c' (settled ++ asked ++ [(key, true)]) ∧
      origin.Counted c' m invalid settled := by
  have hnode : c.nodeOf key = origin.nodeOf key := nodeOf_of_capacities h.rations.capacities key
  obtain ⟨e, hrefused⟩ | ⟨n, n', hn, hqueued, htaken⟩ := c.submit_cases (c.nodeOf key) (.get key)
  · cases hrefused.symm.trans hsubmit
  · obtain ⟨rfl, -⟩ := Prod.mk.inj (htaken.symm.trans hsubmit)
    have hunstarted := (h.tracks.nodes _ n hn).healthy.unstarted
    have hcapacity : n'.capacity = n.capacity := by
      obtain ⟨-, -, rfl⟩ := Node.submit_eq hunstarted hqueued
      rfl
    rw [hnode] at hn
    refine ⟨h.rations.queue hn hcapacity (by rw [hnode]) (Node.backlog_submit hunstarted hqueued),
      ?_⟩
    exact ⟨h.counted.hits, h.counted.misses, h.counted.errors, h.counted.timeouts⟩

/-- **One read** of a valid key is queued, or refused; either way `Reading` goes on. -/
theorem Reading.ask (h : Reading origin servers m due c [] asked reads invalid) (key : String) :
    ∃ c' answer queued due', c.submit (c.nodeOf key) (.get key) = (c', answer) ∧
      Reading origin servers m due' c' [] (asked ++ [(key, queued)])
        (reads ++ [⟨key, c.nodeOf key, answer⟩]) invalid := by
  have hnode : c.nodeOf key = origin.nodeOf key := nodeOf_of_capacities h.rations.capacities key
  have hi := h.tracks.nodeOf_lt key
  have hn : c.nodes[c.nodeOf key]? = some c.nodes[c.nodeOf key] := List.getElem?_eq_getElem hi
  have hpledged := h.tracks.nodes _ _ hn
  cases hfull : c.isFullAt (c.nodeOf key) with
  | true =>
      have hnfull : c.nodes[c.nodeOf key].isFull = true := by simpa [isFullAt, hn] using hfull
      obtain ⟨hrefused, hqueue⟩ := Node.submit_of_full hpledged.healthy.opened hpledged.healthy.runs
        hnfull (.get key c.nextTicket)
      have hsubmit : c.submit (c.nodeOf key) (.get key) = (c, .error (.remote (.queueFull
          c.nodes[c.nodeOf key].address c.nodes[c.nodeOf key].capacity))) := by
        simp only [submit, hn, hrefused]
      refine ⟨c, _, false, due, hsubmit, h.tracks, ?_, fun read hread ticket hanswer => ?_,
        h.rations.refuse (hnode ▸ hn) hqueue, h.counted⟩
      · exact List.rel_append h.pends (.cons ⟨rfl, hnode, rfl, rfl, rfl⟩ .nil)
      · obtain hread | hread := List.mem_append.mp hread
        · exact h.due read hread ticket hanswer
        · obtain rfl := List.mem_singleton.mp hread
          cases hanswer
  | false =>
      obtain ⟨c', hsubmit, htracks, hawaits, -, hkeep⟩ := h.tracks.submitGet hfull
      obtain ⟨hrations, hcounted⟩ := h.queued hsubmit
      refine ⟨c', _, true, _, hsubmit, htracks, ?_, fun read hread ticket hanswer => ?_, hrations,
        hcounted⟩
      · exact List.rel_append h.pends (.cons ⟨rfl, hnode, rfl⟩ .nil)
      · obtain hread | hread := List.mem_append.mp hread
        · obtain ⟨hdue, hold⟩ := h.due read hread ticket hanswer
          have hlt := h.tracks.lt_of_awaits hold
          exact ⟨by rw [Function.update_of_ne hlt.ne, hdue], hkeep _ _ hold⟩
        · obtain rfl := List.mem_singleton.mp hread
          obtain rfl := Except.ok.inj hanswer
          exact ⟨Function.update_self .., hawaits⟩

variable {keys left : List String} {key : String} {progress : Progress}

/-- A read of an invalid key is a miss at once. -/
theorem Reading.miss (h : Reading origin servers m due c [] asked reads invalid) (key : String)
    (e : CacheError) :
    Reading origin servers m due (c.missInvalid key e).1 [] asked reads (invalid + 1) := by
  obtain ⟨htracks, hpends, hdue, hrations, hcounted⟩ := h
  refine ⟨htracks.miss key e, hpends, hdue, hrations.congr rfl, hcounted.hits, ?_, hcounted.errors,
    hcounted.timeouts⟩
  have hmisses := hcounted.misses
  simp only [missInvalid, List.length_nil] at hmisses ⊢
  omega

/-- The next read of several is queued, or refused, or is of a key that no server takes. -/
theorem Batching.queueRead (h : Batching origin servers m keys c (.queues (key :: left) reads)) :
    Comes origin servers m keys (c.goOn false (.queues (key :: left) reads)) := by
  obtain ⟨due, asked, invalid, hreading, hkeys, hinvalid⟩ := h
  simp only [goOn, submitReads]
  cases hvalid : isValidKey key with
  | false =>
      obtain ⟨e, he⟩ := validateKey_of_invalid hvalid
      simp only [he, List.append_nil]
      refine ⟨due, asked, invalid + 1, hreading.miss key e, by simpa [hvalid] using hkeys, ?_⟩
      simp only [List.countP_cons, hvalid] at hinvalid
      simp at hinvalid ⊢
      omega
  | true =>
      obtain ⟨c', answer, queued, due', hsubmit, hreading⟩ := hreading.ask key
      simp only [validateKey_of_valid hvalid, hsubmit]
      exact ⟨due', _, invalid, hreading, by simpa [hvalid] using hkeys,
        by simpa [hvalid] using hinvalid⟩

/-- A read of several keys begins with all of them still to be queued. -/
theorem Tracks.batching (h : c.forgetAnswers.Tracks servers m due []) (hdrained : c.Drained)
    (keys : List String) :
    Batching c servers m keys c.forgetAnswers (.queues keys []) := by
  have hempty (i : Nat) (n : Node) (hn : c.nodes[i]? = some n) : n.backlog.length ≤ 0 := by
    simp [hdrained n (List.mem_of_getElem? hn)]
  exact ⟨due, [], 0, ⟨h, .nil, by simp, ⟨rfl, hempty, fun _ _ _ => .inl rfl⟩,
    ⟨rfl, rfl, rfl, rfl⟩⟩, by simp, by simp⟩

/-- **A step** of a read of several keys. Once nothing is left to run it gets ahead. -/
theorem Batching.goOn (h : Batching origin servers m keys c progress) :
    Comes origin servers m keys (c.goOn false progress) ∧
      (c.Drained → ∀ progress', (c.goOn false progress).2 = .inr progress' →
        progress'.toDo < progress.toDo) := by
  have hreturns {turn : Turn} (hresult : ∃ result, turn.next = .inl result) (progress' : Progress)
      (hp : turn.stage.2 = .inr progress') : progress'.toDo < progress.toDo := by
    obtain ⟨result, hresult⟩ := hresult
    simp [Turn.stage, hresult] at hp
  cases progress with
  | queues left reads =>
      cases left with
      | cons key left =>
          refine ⟨h.queueRead, fun _ progress' hp => ?_⟩
          obtain rfl := Sum.inr.inj hp
          simp [Progress.toDo]
      | nil =>
          obtain ⟨due, asked, invalid, hreading, hkeys, hinvalid⟩ := h
          obtain rfl : invalid = keys.countP (!isValidKey ·) := by simpa using hinvalid
          have hnone : Finds m [] {} := fun key => by simp
          obtain ⟨hcomes, hlast⟩ := hreading.settleReads (by simpa using hkeys) hnone
          exact ⟨hcomes, fun hd => hreturns (hlast hd)⟩
  | waits wait =>
      cases wait with
      | getMany ticket reads found =>
          obtain ⟨due, settled, asked, hreading, hkeys, hfound⟩ := h
          obtain ⟨hcomes, hlast⟩ := hreading.settleReads hkeys hfound
          exact ⟨hcomes, fun hd => hreturns (hlast hd)⟩
      | _ => exact h.elim

/-- Wherever the call has got, there is one map that its client `Tracks`. -/
theorem Batching.tracks (h : Batching origin servers m keys c progress) :
    ∃ due, c.Tracks servers m due [] := by
  cases progress with
  | queues left reads =>
      obtain ⟨due, asked, invalid, hreading, -⟩ := h
      exact ⟨due, hreading.tracks⟩
  | waits wait =>
      cases wait with
      | getMany ticket reads found =>
          obtain ⟨due, settled, asked, hreading, -⟩ := h
          exact ⟨due, hreading.tracks⟩
      | _ => exact h.elim

/-! ## Workers -/

/-- A worker leaves the reads of a call as they are: `Reading` goes through its steps. -/
theorem Reading.work (h : Reading origin servers m due c settled asked reads invalid)
    (hi : c.nodes[i]? = some n) {wanted : Ticket → Bool}
    (hwanted : ∀ t ∈ reads.filterMap (·.answer.toOption), wanted t = true) :
    Reading origin (Function.update servers i (n.serve (servers i)).2) m due
      (c.worked i wanted (n.advance wanted (n.serve (servers i)).1)) settled asked reads
        invalid := by
  have hbacklog : (n.advance wanted (n.serve (servers i)).1).1.backlog.length ≤
      n.backlog.length := by
    obtain ⟨hsame, -⟩ | ⟨c, hnext⟩ :=
      ((h.tracks.nodes i n hi).healthy.serves wanted (servers i)).shortens
    · rw [hsame]
    · simp [hnext]
  have hcapacity := (n.advance_moves wanted (n.serve (servers i)).1).kept.capacity
  refine ⟨h.tracks.work hi wanted, h.pends, fun read hread ticket hanswer => ?_, ?_, ?_⟩
  · obtain ⟨hdue, hawaits⟩ := h.due read hread ticket hanswer
    have hticket : wanted ticket = true :=
      hwanted ticket (List.mem_filterMap.mpr ⟨read, hread, by simp [hanswer, Except.toOption]⟩)
    exact ⟨hdue, h.tracks.awaits_work hi hticket hawaits⟩
  · exact h.rations.set hi hcapacity (by rw [worked_eq]) hbacklog
  · rw [worked_eq]
    exact ⟨h.counted.hits, h.counted.misses, h.counted.errors, h.counted.timeouts⟩

/-- `Batching` goes through a step of a worker. -/
theorem Batching.work (h : Batching origin servers m keys c progress) (hi : c.nodes[i]? = some n)
    {wanted : Ticket → Bool} (hwanted : ∀ t ∈ progress.tickets, wanted t = true) :
    Batching origin (Function.update servers i (n.serve (servers i)).2) m keys
      (c.worked i wanted (n.advance wanted (n.serve (servers i)).1)) progress := by
  cases progress with
  | queues left reads =>
      obtain ⟨due, asked, invalid, hreading, hrest⟩ := h
      exact ⟨due, asked, invalid, hreading.work hi hwanted, hrest⟩
  | waits wait =>
      cases wait with
      | getMany ticket reads found =>
          obtain ⟨due, settled, asked, hreading, hrest⟩ := h
          exact ⟨due, settled, asked, hreading.work hi hwanted, hrest⟩
      | _ => exact h.elim

end Cluster

end CacheService.Remote
