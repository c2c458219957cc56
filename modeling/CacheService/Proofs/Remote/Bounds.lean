import CacheService.Proofs.Remote.Ending
import CacheService.Proofs.Remote.Execution
import CacheService.Proofs.Remote.Lookups

/-!
# CacheService.Proofs.Remote.Bounds

What a client at work stays within. Its time limits and the lengths of its queues are
those of its settings (`Node.Limited`), and its counters are no larger than the number
of keys that were looked up and of values that were written.

* `Cluster.Looked` and `Cluster.Counts` — the lookups that a step of a call counts. A
  lookup is counted when it is settled, so a call that waits still owes some
  (`Waiting.owed`). Each part of a call has its lemma, named after the function.
* `Cluster.Within` — the bounds. They hold of a client while a call waits and after it
  has returned, whatever the network does (`Live.within_await`, `Live.within_call`), and
  also while no call is under way (`Live.within_quiesce`).
-/

namespace CacheService.Remote

/-! ## Nodes -/

namespace Node

/-- The queue of a node and its time limit are as long as the settings say. -/
structure Limited (settings : RemoteSettings) (n : Node) : Prop where
  capacity : n.capacity = max 1 settings.queueCapacity
  timeout : n.timeout = settings.timeout

variable {settings : RemoteSettings} {n n' m : Node}

/-- A new node is `Limited` by the settings that it is made with. -/
theorem limited_create (settings : RemoteSettings) (address : Address) :
    (create settings address).Limited settings := ⟨rfl, rfl⟩

/-- Queueing a command leaves a node `Limited`. -/
theorem Limited.submit {c : Command} (h : n.Limited settings) (hqueued : n.submit c = .ok n') :
    n'.Limited settings := by
  obtain ⟨hcapacity, htimeout⟩ := h
  unfold Node.submit at hqueued
  split at hqueued
  · contradiction
  · split at hqueued
    · contradiction
    · obtain rfl := Except.ok.inj hqueued
      exact ⟨hcapacity, htimeout⟩
    · split at hqueued
      · contradiction
      · obtain rfl := Except.ok.inj hqueued
        exact ⟨hcapacity, htimeout⟩

theorem Limited.asked (h : n.Limited settings) (hasked : n.Asked n') : n'.Limited settings :=
  hasked.preserves (fun _ _ _ _ hqueued hm => hm.submit hqueued)
    (fun _ hm => ⟨hm.capacity, hm.timeout⟩) (fun _ hm => ⟨hm.capacity, hm.timeout⟩) h

theorem Limited.kept (h : n.Limited settings) (hkept : n.Kept n') : n'.Limited settings :=
  ⟨hkept.capacity.trans h.capacity, hkept.timeout.trans h.timeout⟩

/-- A queue that can be made does not bring the process down. -/
theorem Limited.survives (h : n.Limited settings) (hqueue : settings.queueCapacity ≤ queueLimit) :
    n.hasCrashed = false := by
  have hwithin : n.capacity ≤ queueLimit :=
    h.capacity ▸ Nat.max_le.mpr ⟨by decide, hqueue⟩
  rw [hasCrashed, decide_eq_false (Nat.not_lt.mpr hwithin), Bool.and_false]

/-- One that cannot be made does, with the first command. -/
theorem hasCrashed_submit {c : Command} (hqueued : n.submit c = .ok n')
    (hlong : queueLimit < n.capacity) :
    n'.hasCrashed = true := by
  unfold submit at hqueued
  split at hqueued
  · contradiction
  · split at hqueued
    · contradiction
    · obtain rfl := Except.ok.inj hqueued
      simp [hasCrashed, isStarted, hlong]
    · split at hqueued
      · contradiction
      · obtain rfl := Except.ok.inj hqueued
        simp [hasCrashed, hlong, isStarted]

/-- Steps of a worker (`Reaches`) keep to the limits, and take no writes. -/
theorem Reaches.within {wanted : Ticket → Bool} {events : List Event}
    (h : n.Reaches wanted m events)
    (hbooked : n.Booked) (hlimited : n.Limited settings) :
    m.Booked ∧ m.Limited settings ∧ m.unstored ≤ n.unstored := by
  induction h with
  | refl n => exact ⟨hbooked, hlimited, le_rfl⟩
  | @step n m events st _ ih =>
      obtain ⟨hbooked', hunstored⟩ := hbooked.advance wanted st
      obtain ⟨hm, hm', hless⟩ := ih hbooked' (hlimited.kept (n.advance_moves wanted st).kept)
      exact ⟨hm, hm', by omega⟩

end Node

/-! ## Calls -/

namespace Cluster

/-- The lookups that a call which waits has still to count. -/
def Waiting.owed : Waiting → Nat
  | .get .. => 1
  | .getMany _ reads _ => reads.length
  | .delete .. | .clear .. | .awaitWrites .. | .stop .. => 0

/-- The lookups that a call has still to count after a turn; none if it has returned. -/
def Turn.owed (turn : Turn) : Nat := turn.next.elim (fun _ => 0) Waiting.owed

/-- A client that has counted `count` more lookups. -/
structure Looked (c : Cluster) (count : Nat) (c' : Cluster) : Prop where
  timeout : c'.timeout = c.timeout
  lookups : c'.hits + c'.misses = c.hits + c.misses + count

/-- A step of a call counts no more lookups than are owed. -/
structure Counts (c : Cluster) (owed : Nat) (turn : Turn) : Prop where
  timeout : turn.cluster.timeout = c.timeout
  lookups : turn.cluster.hits + turn.cluster.misses + turn.owed ≤ c.hits + c.misses + owed

variable {c c' : Cluster} {owed : Nat} {turn : Turn}

/-- A call that returns at once counts nothing. -/
theorem Counts.returned (c : Cluster) (r : Result) (notices : List Notice) (owed : Nat) :
    c.Counts owed (.returned c r notices) := ⟨rfl, Nat.le_add_right _ _⟩

/-- A call that waits counts nothing, and owes what its `Waiting` owes. -/
theorem Counts.waits (c : Cluster) {w : Waiting} (notices : List Notice) (h : w.owed ≤ owed) :
    c.Counts owed (.waits c w notices) := ⟨rfl, Nat.add_le_add_left h _⟩

/-- What has been `Looked` up before is owed no more. -/
theorem Counts.after {owed' count : Nat} (h : c'.Counts owed' turn) (hlooked : c.Looked count c')
    (howed : count + owed' ≤ owed) : c.Counts owed turn := by
  have hbefore := hlooked.lookups
  have hturn := h.lookups
  exact ⟨h.timeout.trans hlooked.timeout, by omega⟩

/-- Reports count nothing. -/
theorem Counts.notices (h : c.Counts owed turn) (notices : List Notice) :
    c.Counts owed { turn with notices } := ⟨h.timeout, h.lookups⟩

/-- Lookups that are counted one after the other add up. -/
theorem Looked.trans {c'' : Cluster} {count count' : Nat} (h : c.Looked count c')
    (h' : c'.Looked count' c'') : c.Looked (count + count') c'' :=
  ⟨h'.timeout.trans h.timeout, by rw [h'.lookups, h.lookups, Nat.add_assoc]⟩

/-- Nodes count no lookups. -/
theorem looked_nodes (c : Cluster) (nodes : List Node) : c.Looked 0 { c with nodes } := ⟨rfl, rfl⟩

theorem looked_missInvalid (c : Cluster) (key : String) (e : CacheError) :
    c.Looked 1 (c.missInvalid key e).1 := ⟨rfl, rfl⟩

theorem looked_submit (c : Cluster) (i : Nat) (command : Ticket → Command) :
    c.Looked 0 (c.submit i command).1 := by
  obtain ⟨e, h⟩ | ⟨n, n', -, -, h⟩ := submit_cases c i command <;> rw [h] <;> exact ⟨rfl, rfl⟩

theorem looked_settleRead (c : Cluster) (key : String) (finding : Finding) :
    c.Looked 1 (c.settleRead key finding).2.1 := by
  unfold settleRead
  cases finding with
  | ok value =>
      cases value with
      | none => exact ⟨rfl, rfl⟩
      | some value => exact ⟨rfl, Nat.succ_add ..⟩
  | error e =>
      dsimp only
      split <;> exact ⟨rfl, rfl⟩

theorem looked_settleFailure (c : Cluster) (what target : String) (e : CacheError) :
    c.Looked 0 (c.settleFailure what target e).1 := by
  unfold settleFailure
  split <;> exact ⟨rfl, rfl⟩

theorem looked_settleFlush (c : Cluster) (i : Nat) (finding : Finding) :
    c.Looked 0 (c.settleFlush i finding).1 := by
  cases finding with
  | ok value => exact ⟨rfl, rfl⟩
  | error e => exact looked_settleFailure ..

theorem counts_finishGet (c : Cluster) (key : String) (finding : Finding) :
    c.Counts 1 (c.finishGet key finding) :=
  (Counts.returned _ _ _ 0).after (looked_settleRead c key finding) le_rfl

theorem counts_finishDelete (c : Cluster) (key : String) (i : Nat) (finding : Finding) :
    c.Counts 0 (c.finishDelete key i finding) := by
  unfold finishDelete
  cases finding with
  | ok value => exact .returned ..
  | error e =>
      dsimp only
      exact (Counts.returned _ _ _ 0).after (looked_settleFailure ..) le_rfl

/-- A command that is waited for is queued, or its failure is dealt with. -/
theorem counts_awaited (c : Cluster) (i : Nat) (command : Ticket → Command)
    (wait : Ticket → Waiting)
    (hwait : ∀ ticket, (wait ticket).owed = owed) {failed : Cluster → CacheError → Turn}
    (hfailed : ∀ (c : Cluster) (e : CacheError), c.Counts owed (failed c e)) :
    c.Counts owed (match c.submit i command with
      | (c, .ok ticket) => .waits c (wait ticket) []
      | (c, .error e) =>
        if e.isIllegalState then .returned c (.error e) [] else failed c e : Turn) := by
  have hsubmit := looked_submit c i command
  generalize c.submit i command = submitted at hsubmit ⊢
  obtain ⟨c', e | ticket⟩ := submitted
  · have hrest : c'.Counts owed
        (if e.isIllegalState then .returned c' (.error e) [] else failed c' e : Turn) := by
      split
      · exact .returned ..
      · exact hfailed c' e
    exact hrest.after hsubmit (Nat.zero_add owed).le
  · exact (Counts.waits c' [] (hwait ticket).le).after hsubmit (Nat.zero_add owed).le

theorem counts_flushFrom (c : Cluster) (positions : List Nat) :
    c.Counts 0 (c.flushFrom positions) := by
  induction positions generalizing c with
  | nil => exact .returned ..
  | cons i rest ih =>
      refine counts_awaited c i .flush (.clear i · rest) (fun _ => rfl) fun c e => ?_
      exact ((ih _).after (looked_settleFlush c i (.error e)) le_rfl).notices _

theorem counts_awaitFrom (c : Cluster) (positions : List Nat) :
    c.Counts 0 (c.awaitFrom positions) := by
  induction positions generalizing c with
  | nil => exact .returned ..
  | cons i rest ih =>
      have hsubmit := looked_submit c i .barrier
      unfold awaitFrom
      split
      · generalize c.submit i .barrier = submitted at hsubmit ⊢
        obtain ⟨c', e | ticket⟩ := submitted
        · exact (ih c').after hsubmit le_rfl
        · have hwaits : c'.Counts 0 (.waits c' (.awaitWrites i ticket rest) []) :=
            .waits c' [] le_rfl
          exact hwaits.after hsubmit le_rfl
      · exact ih c

theorem counts_awaitEnds (c : Cluster) (positions : List Nat) :
    c.Counts 0 (c.awaitEnds positions) := by
  induction positions with
  | nil => exact .returned ..
  | cons i rest ih =>
      unfold awaitEnds
      split
      · exact ih
      · exact .waits c [] le_rfl

/-- Each read that is queued is owed, and each that is not has been counted. -/
theorem looked_submitReads (c : Cluster) (keys : List String) :
    ∃ count, c.Looked count (c.submitReads keys).1 ∧
      count + (c.submitReads keys).2.1.length = keys.length := by
  induction keys generalizing c with
  | nil => exact ⟨0, ⟨rfl, rfl⟩, rfl⟩
  | cons key keys ih =>
      unfold submitReads
      cases validateKey key with
      | error e =>
          obtain ⟨count, hlooked, hlength⟩ := ih (c.missInvalid key e).1
          refine ⟨1 + count, (looked_missInvalid c key e).trans hlooked, ?_⟩
          rw [Nat.add_assoc, Nat.add_comm, hlength, List.length_cons]
      | ok _ =>
          obtain ⟨count, hlooked, hlength⟩ := ih (c.submit (c.nodeOf key) (.get key)).1
          refine ⟨0 + count, (looked_submit c (c.nodeOf key) (.get key)).trans hlooked, ?_⟩
          rw [Nat.zero_add, List.length_cons, ← Nat.add_assoc, hlength, List.length_cons]

/-- `settleReads` counts a lookup for each read that is settled, and owes the others. -/
theorem counts_settleReads (c : Cluster) (late : Bool) (found : Found) (reads : List PendingRead) :
    c.Counts reads.length (c.settleReads late found reads) := by
  induction reads generalizing c found with
  | nil => exact .returned ..
  | cons read reads ih =>
      have hsettle (finding : Finding) (notices : List Notice) : c.Counts (reads.length + 1)
          { (c.settleRead read.key finding).2.1.settleReads late
              (addFound found read.key (c.settleRead read.key finding).1) reads with notices } :=
        ((ih _ _).after (looked_settleRead c read.key finding) (Nat.add_comm ..).le).notices notices
      unfold settleReads
      cases read.answer with
      | error e =>
          dsimp only
          split
          · exact .returned ..
          · exact hsettle (.error e) _
      | ok ticket =>
          dsimp only
          split
          · exact hsettle _ _
          · exact .waits c [] le_rfl

theorem counts_startGet (c : Cluster) (key : String) : c.Counts 1 (c.startGet key) := by
  unfold startGet
  cases validateKey key with
  | error e => exact (Counts.returned _ _ _ 0).after (looked_missInvalid c key e) le_rfl
  | ok _ =>
      exact counts_awaited c _ _ (.get key _) (fun _ => rfl) fun c e =>
        counts_finishGet c key (.error e)

theorem counts_startGetMany (c : Cluster) (keys : List String) :
    c.Counts keys.length (c.startGetMany keys) := by
  obtain ⟨count, hlooked, hlength⟩ := looked_submitReads c keys
  exact ((counts_settleReads _ false {} _).after hlooked hlength.le).notices _

theorem counts_startDelete (c : Cluster) (key : String) : c.Counts 0 (c.startDelete key) := by
  unfold startDelete
  cases validateKey key with
  | error e => exact .returned ..
  | ok _ =>
      exact counts_awaited c _ _ (.delete key _) (fun _ => rfl) fun c e =>
        counts_finishDelete c key _ (.error e)

theorem counts_startStop (c : Cluster) : c.Counts 0 c.startStop := by
  unfold startStop
  split
  · exact .returned ..
  · exact (counts_awaitEnds _ _).after ⟨rfl, rfl⟩ le_rfl

theorem counts_startSet (c : Cluster) (unixSeconds : Int) (key : String) (value : ByteArray)
    (ttl : UInt32) : c.Counts 0 (c.startSet unixSeconds key value ttl) := by
  unfold startSet
  cases validateKey key with
  | error e => exact ⟨rfl, le_rfl⟩
  | ok _ =>
      dsimp only
      split
      · exact .returned ..
      · split
        · exact ⟨rfl, le_rfl⟩
        · split <;> exact ⟨rfl, le_rfl⟩

/-- **A call that starts** owes a lookup for each key that it reads. -/
theorem counts_start (c : Cluster) (unixSeconds : Int) (call : Call) :
    c.Counts call.lookups (c.start unixSeconds call) := by
  have hunlessStopped {owed : Nat} {turn : Turn} (h : c.Counts owed turn) :
      c.Counts owed (if c.stopped then .returned c (.error (.illegalState .remoteStopped)) []
        else turn : Turn) := by
    split
    · exact .returned ..
    · exact h
  cases call with
  | get key => exact hunlessStopped (counts_startGet c key)
  | getMany keys => exact hunlessStopped (counts_startGetMany c keys)
  | set key value ttl => exact hunlessStopped (counts_startSet c unixSeconds key value ttl)
  | delete key => exact hunlessStopped (counts_startDelete c key)
  | clear => exact hunlessStopped (counts_flushFrom c _)
  | stop => exact counts_startStop c
  | awaitWrites => exact counts_awaitFrom c _

/-- **A call that goes on** counts what it owes. -/
theorem counts_resume (c : Cluster) (late : Bool) (w : Waiting) :
    c.Counts w.owed (c.resume late w) := by
  cases w with
  | get key i ticket =>
      unfold resume
      dsimp only
      split
      · exact .waits c [] le_rfl
      · exact counts_finishGet c key _
  | getMany ticket reads found => exact counts_settleReads c late found reads
  | delete key i ticket =>
      unfold resume
      dsimp only
      split
      · exact .waits c [] le_rfl
      · exact counts_finishDelete c key i _
  | clear i ticket rest =>
      unfold resume
      dsimp only
      split
      · exact .waits c [] le_rfl
      · next finding _ =>
          exact ((counts_flushFrom _ rest).after (looked_settleFlush c i finding) le_rfl).notices _
  | awaitWrites i ticket rest =>
      unfold resume
      dsimp only
      split
      · exact .waits c [] le_rfl
      · exact counts_awaitFrom c rest
  | stop i rest =>
      unfold resume
      dsimp only
      split
      · exact counts_awaitEnds c rest
      · split
        · exact ((counts_awaitEnds _ rest).after (looked_nodes c _) le_rfl).notices _
        · exact .waits c [] le_rfl

/-! ## Clients -/

/-- The operations that a call of a client counts as: one for each key that it looks up,
and one for a value that it writes. -/
def Call.weight : Call → Nat
  | .set .. => 1
  | call => call.lookups

/-- A client that was made with some settings, after `n` operations at most, while a
call still owes some lookups. -/
structure Within (settings : RemoteSettings) (n owed : Nat) (c : Cluster) : Prop where
  booked : c.Booked
  timeout : c.timeout = settings.timeout
  nodes : ∀ node ∈ c.nodes, node.Limited settings
  lookups : c.hits + c.misses + owed ≤ n
  writes : c.unstored ≤ n

variable {settings : RemoteSettings} {n m : Nat}

/-- `Within` for a larger number of operations. -/
theorem Within.mono (h : c.Within settings n owed) (hle : n ≤ m) : c.Within settings m owed :=
  ⟨h.booked, h.timeout, h.nodes, h.lookups.trans hle, h.writes.trans hle⟩

/-- A client with queues that can be made does not bring the process down. -/
theorem Within.survives (h : c.Within settings n owed)
    (hqueue : settings.queueCapacity ≤ Node.queueLimit) : c.hasCrashed = false := by
  refine List.any_eq_false.mpr fun node hnode => ?_
  simp [(h.nodes node hnode).survives hqueue]

/-- A call that is given up owes nothing. -/
theorem Within.drop (h : c.Within settings n owed) : c.Within settings n 0 :=
  have hlookups : c.hits + c.misses + 0 ≤ n := (Nat.le_add_right _ owed).trans h.lookups
  ⟨h.booked, h.timeout, h.nodes, hlookups, h.writes⟩

/-- A new client has counted nothing. -/
theorem within_create (h : create settings = .ok c) : c.Within settings 0 0 := by
  obtain ⟨hbooked, hunstored⟩ := booked_create h
  obtain rfl := eq_of_create h
  refine ⟨hbooked, rfl, fun n hn => ?_, le_rfl, hunstored.le⟩
  obtain ⟨address, -, rfl⟩ := List.mem_map.mp hn
  exact Node.limited_create settings address

/-- The first value that is written is queued, and a queue longer than `Node.queueLimit`
cannot be made, which brings the process down. -/
theorem hasCrashed_start_set (h : create settings = .ok c)
    (hlong : Node.queueLimit < settings.queueCapacity)
    {key : String} (hkey : keyFault? key = none) (unixSeconds : Int) (value : ByteArray)
    (ttl : UInt32) :
    ∃ c', c.start unixSeconds (.set key value ttl) = .returned c' .done [] ∧
      c'.hasCrashed = true := by
  have hrunning : c.stopped = false := by rw [eq_of_create h]
  obtain ⟨address, hnode⟩ := getElem?_nodeOf_create h key
  obtain ⟨n, hqueued⟩ : ∃ n, (Node.create settings address).submitWrite key value
      (wireExpiration ttl unixSeconds) = .ok n := ⟨_, rfl⟩
  have hcrashed : n.hasCrashed = true := by
    rw [Node.submitWrite_eq] at hqueued
    exact Node.hasCrashed_submit hqueued (Nat.lt_of_lt_of_le hlong (Nat.le_max_right ..))
  have hin := List.mem_of_getElem? (getElem?_set_of_some (b := n) hnode)
  refine ⟨{ c with nodes := c.nodes.set (c.nodeOf key) n }, ?_,
    List.any_eq_true.mpr ⟨n, hin, hcrashed⟩⟩
  simp only [start, hrunning, startRunning, startSet, validateKey, hkey, hnode, hqueued,
    Bool.false_eq_true, if_false]

/-- `Within` goes through a step of a call that does not write. -/
theorem Within.step (h : c.Within settings n owed) (hasks : c.Asks turn.cluster)
    (hcounts : c.Counts owed turn) : turn.cluster.Within settings n turn.owed := by
  obtain ⟨hbooked, hunstored⟩ := h.booked.asks hasks
  refine ⟨hbooked, hcounts.timeout.trans h.timeout, fun node hnode => ?_,
    hcounts.lookups.trans h.lookups, hunstored.trans_le h.writes⟩
  obtain ⟨i, hi, rfl⟩ := List.getElem_of_mem hnode
  have hi' : i < c.nodes.length := hasks.nodes.length_eq ▸ hi
  exact (h.nodes _ (List.getElem_mem hi')).asked (hasks.nodes.get hi' hi)

/-- A write that is `Issued` is one more operation. -/
theorem Within.issued (h : c.Within settings n 0) {key : String} {result : Result}
    (hissued : c.Issued key result c') : c'.Within settings (n + 1) 0 := by
  obtain ⟨hbooked, -⟩ := hissued.shows h.booked
  have hlookups := Nat.le_succ_of_le h.lookups
  have hwrites := h.writes
  cases hissued with
  | queued i node node' value expiration hnode htaken =>
      have hmem := List.mem_of_getElem? hnode
      have hlimited : node'.Limited settings := by
        obtain ⟨hcapacity, htimeout⟩ := h.nodes node hmem
        rw [Node.submitWrite_eq] at htaken
        exact Node.Limited.submit (n := { node with pendingWrites := node.pendingWrites + 1 })
          ⟨hcapacity, htimeout⟩ htaken
      obtain ⟨hnode', hpending, hdropped⟩ := (h.booked.nodes node hmem).submitWrite htaken
      have hset := (h.booked.set hnode hnode').2
      refine ⟨hbooked, h.timeout, fun k hk => ?_, hlookups, ?_⟩
      · obtain hk | rfl := List.mem_or_eq_of_mem_set hk
        · exact h.nodes k hk
        · exact hlimited
      · simp only [Node.unstored, hpending, hdropped] at hset
        omega
  | lost cause =>
      refine ⟨hbooked, h.timeout, h.nodes, hlookups, ?_⟩
      simp only [unstored] at hwrites ⊢
      omega
  | refused e hstopped => exact ⟨hbooked, h.timeout, h.nodes, hlookups, Nat.le_succ_of_le hwrites⟩

/-- A call that starts adds its `Call.weight`. -/
theorem Within.start (h : c.Within settings n 0) (unixSeconds : Int) (call : Call) :
    (c.start unixSeconds call).cluster.Within settings (n + call.weight)
      (c.start unixSeconds call).owed := by
  by_cases hcall : ∀ key value ttl, call ≠ .set key value ttl
  · have hweight : call.weight = call.lookups := by
      cases call with
      | set key value ttl => exact absurd rfl (hcall key value ttl)
      | _ => rfl
    have howed : c.Within settings (n + call.weight) call.lookups := by
      refine ⟨h.booked, h.timeout, h.nodes, ?_, Nat.le_add_right_of_le h.writes⟩
      have hlookups := h.lookups
      omega
    exact howed.step (asks_start c unixSeconds hcall) (counts_start c unixSeconds call)
  · push Not at hcall
    obtain ⟨key, value, ttl, rfl⟩ := hcall
    obtain ⟨result, hnext, hissued⟩ := issued_start h.booked unixSeconds key value ttl
    have hdone := h.issued hissued
    rwa [Turn.owed, hnext]

/-- A call that goes on adds nothing. -/
theorem Within.resume (h : c.Within settings n w.owed) (late : Bool) :
    (c.resume late w).cluster.Within settings n (c.resume late w).owed :=
  h.step (asks_resume c late w) (counts_resume c late w)

theorem Within.forgetAnswers (h : c.Within settings n owed) :
    c.forgetAnswers.Within settings n owed :=
  ⟨⟨h.booked.nonempty, h.booked.nodes⟩, h.timeout, h.nodes, h.lookups, h.writes⟩

/-- `Within` when the worker of one node makes progress. -/
theorem Within.replace (h : c.Within settings n owed) {i : Nat} {node node' : Node}
    {wanted : Ticket → Bool} {events : List Event} (hnode : c.nodes[i]? = some node)
    (hworks : node.Reaches wanted node' events) :
    (c.replace i wanted node' events).1.Within settings n owed := by
  have hmem := List.mem_of_getElem? hnode
  obtain ⟨hbooked, hlimited, hunstored⟩ :=
    hworks.within (h.booked.nodes node hmem) (h.nodes node hmem)
  obtain ⟨hcluster, hset⟩ := h.booked.set hnode hbooked
  have hwrites := h.writes
  rw [Live.cluster_replace]
  refine ⟨⟨hcluster.nonempty, hcluster.nodes⟩, h.timeout, fun k hk => ?_, h.lookups, ?_⟩
  · obtain hk | rfl := List.mem_or_eq_of_mem_set hk
    · exact h.nodes k hk
    · exact hlimited
  · simp only [unstored] at hset hwrites ⊢
    omega

end Cluster

/-! ## Clients at work -/

namespace Live

open Cluster (Call Within Waiting)

variable {σ : Type} {settings : RemoteSettings} {n owed : Nat} {l : Live σ}

/-- Time limits that are up leave a client `Within` its bounds. -/
theorem within_expire (h : l.cluster.Within settings n owed) (wanted : Ticket → Bool) :
    (l.expire wanted).cluster.Within settings n owed := by
  refine foldl_keeps (P := fun l => l.cluster.Within settings n owed) (fun l i h => ?_) _ h
  unfold expireNode
  split
  · exact h
  · next node hnode => exact h.replace hnode (Node.reaches_advance .expire rfl)

variable [Network σ]

/-- So do workers that run until they rest. -/
theorem within_settle (h : l.cluster.Within settings n owed) (wanted : Ticket → Bool) :
    (l.settle wanted).cluster.Within settings n owed := by
  refine foldl_keeps (P := fun l => l.cluster.Within settings n owed) (fun l i h => ?_) _ h
  unfold settleNode
  split
  · exact h
  · next node hnode => exact h.replace hnode (Node.reaches_runQueue i node l.network _)

/-- **A call that waits** keeps to the bounds, however long it does. -/
theorem within_await (rounds elapsed : Nat) {w : Waiting} (h : l.cluster.Within settings n w.owed) :
    (await rounds elapsed w l).2.cluster.Within settings n 0 := by
  induction rounds generalizing elapsed w l with
  | zero => exact h.drop
  | succ rounds ih =>
      have hturn := h.resume (l.isOverdue w)
      unfold await
      dsimp only
      cases hnext : (l.cluster.resume (l.isOverdue w) w).next with
      | inl result => exact hturn.drop
      | inr now =>
          rw [Cluster.Turn.owed, hnext] at hturn
          change (l.report _ (l.cluster.resume (l.isOverdue w) w).notices).cluster.Within
            _ _ now.owed
            at hturn
          dsimp only
          split
          · exact ih _ hturn
          · split
            · exact ih _ (within_settle hturn _)
            · generalize l.report (l.cluster.resume (l.isOverdue w) w).cluster
                (l.cluster.resume (l.isOverdue w) w).notices = l',
                  (patience now).any _ = late at hturn ⊢
              have hturn' := hturn.resume late
              cases hnext' : (l'.cluster.resume late now).next with
              | inl result => exact within_expire hturn'.drop _
              | inr next =>
                  rw [Cluster.Turn.owed, hnext'] at hturn'
                  exact ih _ (within_expire hturn' _)

/-- **A call** keeps to them, from its start until it returns. -/
theorem within_call (h : l.cluster.Within settings n 0) (unixSeconds : Int) (call : Call) :
    (l.call unixSeconds call).2.cluster.Within settings (n + call.weight) 0 := by
  have hturn := h.forgetAnswers.start unixSeconds call
  unfold Live.call
  dsimp only
  cases hnext : (l.cluster.forgetAnswers.start unixSeconds call).next with
  | inl result => exact hturn.drop
  | inr w =>
      rw [Cluster.Turn.owed, hnext] at hturn
      exact within_await _ _ hturn

theorem within_flushWrites (h : l.cluster.Within settings n owed) (rounds : Nat) :
    (flushWrites rounds l).cluster.Within settings n owed := by
  induction rounds generalizing l with
  | zero => exact h
  | succ rounds ih =>
      have hsettled := within_settle h fun _ => false
      unfold flushWrites
      split
      · exact h
      · dsimp only
        split
        · exact hsettled
        · exact ih (within_expire hsettled _)

/-- **Waiting** until no write is pending counts nothing. -/
theorem within_quiesce (h : l.cluster.Within settings n owed) :
    l.quiesce.cluster.Within settings n owed := within_flushWrites h _

end Live

end CacheService.Remote
