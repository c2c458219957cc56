import CacheService.Proofs.Remote.Promises

/-!
# CacheService.Proofs.Remote.Calls

What calls come to while nodes are healthy, compared with one map. The values due are
settled as commands are queued (`Cluster.Tracks`), so a call that starts or goes on only
has to be compared with the map.

* `Contents.issue` and `Contents.read` — the map after a call, and what a read of a key
  finds in it. `Contents.Answers` compares the result of a call with the map, and
  `Contents.AnswersAll` the results of many, each with the map after those before it.
* `Cluster.Underway` — a call on its way to the result that the map after it gives
  (`Expects`): the answers that it still has to read are awaited (`Cluster.Awaits`).
* `Cluster.Proceeds` — what a call that starts or goes on comes to: that result, or
  `Underway` again.

A call that is under way stays so through the steps of workers (`Underway.work`), and
gets ahead when the answer that it waits for has arrived.
-/

namespace CacheService.Remote

/-! ## The single map -/

namespace Contents

open Cluster (Call Result)

/-- The map after a call. An invalid key is never written. -/
def issue (m : Contents) : Call → Contents
  | .set key value _ => if isValidKey key then Function.update m key (some value) else m
  | .delete key => if isValidKey key then Function.update m key none else m
  | .clear => fun _ => none
  | .get _ | .getMany _ | .stop | .awaitWrites => m

/-- What a read of a key finds in the map. A read of an invalid key misses. -/
def read (m : Contents) (key : String) : Option ByteArray := if isValidKey key then m key else none

/-- Whether the result of a call is what the map answers. -/
def Answers (m : Contents) : Call → Result → Prop
  | .get key, .value value => value = m.read key
  | .getMany keys, .found found =>
      ∀ key : String, found[key]? = if key ∈ keys then m.read key else none
  | .set .., .done | .delete _, .done | .clear, .done => True
  | _, _ => False

/-- Whether every result is what the map answers that `issue` gives after the calls
before it. -/
def AnswersAll (m : Contents) (results : List (Call × Result)) : Prop :=
  ∀ before call result, before ++ [(call, result)] <+: results →
    ((before.map (·.1)).foldl issue m).Answers call result

variable {m : Contents}

/-- A call that reads leaves the map, and the result of one that writes does not depend
on it, so `Answers` may be asked before or after `issue`. -/
theorem Answers.of_issue {call : Call} {result : Result} (h : (m.issue call).Answers call result) :
    m.Answers call result := by
  cases call <;> cases result <;> exact h

/-- Before any call, nothing is to be answered. -/
theorem answersAll_nil : m.AnswersAll [] := by simp [AnswersAll]

/-- One more result may be added to `AnswersAll` if the map after all calls before
answers it. -/
theorem AnswersAll.concat {results : List (Call × Result)} {call : Call} {result : Result}
    (h : m.AnswersAll results) (hresult : ((results.map (·.1)).foldl issue m).Answers call result) :
    m.AnswersAll (results ++ [(call, result)]) := by
  intro before call' result' hprefix
  obtain heq | hprefix := List.prefix_concat_iff.mp hprefix
  · obtain ⟨rfl, hlast⟩ := List.append_inj' heq rfl
    obtain ⟨rfl, rfl⟩ := Prod.mk.inj (List.singleton_inj.mp hlast)
    exact hresult
  · exact h before call' result' hprefix

end Contents

namespace Cluster

variable {c : Cluster} {servers : Nat → Server} {m : Contents} {due : Ticket → Option ByteArray}
  {rest : List Nat} {i : Nat} {ticket : Ticket}

/-! ## Answers that have arrived -/

/-- No node has anything left to run: every `backlog` is empty. -/
def Drained (c : Cluster) : Prop := ∀ n ∈ c.nodes, n.backlog = []

/-- An awaited answer is the one that is due, or it is not there because its command has
not run, and then the client is not `Drained`. -/
theorem Tracks.outcome (h : c.Tracks servers m due rest) (ha : c.Awaits i ticket) :
    c.outcome? false i ticket = some (.ok (due ticket)) ∨
      c.outcome? false i ticket = none ∧ ¬c.Drained := by
  cases hanswer : c.answer? ticket with
  | some finding =>
      obtain ⟨before, later, hsplit, -⟩ := List.lookup_eq_some_iff.mp hanswer
      have hright : finding = .ok (due ticket) := (h.arrived (ticket, finding) (by simp [hsplit])).2
      exact .inl (by simp only [outcome?, hanswer, hright])
  | none =>
      obtain ha | ⟨n, hn, ht⟩ := ha
      · obtain ⟨p, hp, rfl⟩ := List.mem_map.mp ha
        simpa using List.lookup_eq_none_iff.mp hanswer p hp
      · have hliving := (h.nodes i n hn).healthy.runs
        refine .inr ⟨by simp [outcome?, hanswer, hn, hliving], fun hdrained => ?_⟩
        simp [hdrained n (List.mem_of_getElem? hn), ticketsOf] at ht

/-! ## What calls under way expect -/

/-- The answers to reads that are queued, with the nodes they come from. -/
def sourcesOf (reads : List PendingRead) : List (Nat × Ticket) :=
  reads.filterMap fun read => read.answer.toOption.map fun ticket => (read.node, ticket)

namespace Progress

/-- The nodes that a call has still to flush. -/
def unflushed : Progress → List Nat
  | .waits (.clear _ _ rest) => rest
  | .queues .. | .waits _ => []

/-- How much a call has still to do before its last wait. -/
def toDo : Progress → Nat
  | .queues left _ => left.length + 1
  | .waits (.clear _ _ rest) => rest.length
  | .waits _ => 0

/-- The answers that a call reads, with the nodes they come from. -/
def sources : Progress → List (Nat × Ticket)
  | .queues _ reads | .waits (.getMany _ reads _) => sourcesOf reads
  | .waits (.get _ i ticket) | .waits (.delete _ i ticket) | .waits (.clear i ticket _)
  | .waits (.awaitWrites i ticket _) => [(i, ticket)]
  | .waits (.stop ..) => []

end Progress

/-- A source is the answer to a read that was queued. -/
theorem mem_sourcesOf {reads : List PendingRead} {p : Nat × Ticket} :
    p ∈ sourcesOf reads ↔ ∃ read ∈ reads, read.answer = .ok p.2 ∧ read.node = p.1 := by
  have hticket (answer : Except CacheError Ticket) :
      answer.toOption = some p.2 ↔ answer = .ok p.2 := by
    cases answer <;> simp [Except.toOption]
  simp [sourcesOf, Prod.ext_iff, and_comm, hticket]

/-- `found` holds what the map has under `keys`, and nothing else. -/
def Collects (m : Contents) (keys : List String) (found : Found) : Prop :=
  ∀ key : String, found[key]? = if key ∈ keys then m key else none

/-- Whether the answer due for a queued read is what the map has under its key. -/
def Reads (m : Contents) (due : Ticket → Option ByteArray) (read : PendingRead) : Prop :=
  ∃ ticket, read.answer = .ok ticket ∧ due ticket = m read.key

/-- Whether a call under way is to return what the map after it says. -/
def Expects (m : Contents) (due : Ticket → Option ByteArray) : Call → Progress → Prop
  | .get key, .waits (.get key' _ ticket) => key' = key ∧ isValidKey key = true ∧ due ticket = m key
  | .getMany keys, .queues left reads =>
    keys.filter isValidKey = reads.map (·.key) ++ left.filter isValidKey ∧
      ∀ read ∈ reads, Reads m due read
  | .getMany keys, .waits (.getMany _ reads found) =>
    ∃ settled, keys.filter isValidKey = settled ++ reads.map (·.key) ∧ Collects m settled found ∧
      ∀ read ∈ reads, Reads m due read
  | .delete _, .waits (.delete ..) => True
  | .clear, .waits (.clear ..) => m = fun _ => none
  | _, _ => False

/-- A client with a call under way, while `m` is the map after that call. -/
structure Underway (c : Cluster) (servers : Nat → Server) (m : Contents)
    (due : Ticket → Option ByteArray) (call : Call) (progress : Progress) : Prop where
  tracks : c.Tracks servers m due progress.unflushed
  expects : Expects m due call progress
  awaits : ∀ p ∈ progress.sources, c.Awaits p.1 p.2
  inRange : ∀ i ∈ progress.unflushed, i < c.nodes.length

/-- Whether a step of a call has come to the result that one map gives, or is on the way
to it (`Underway`). -/
def Proceeds (servers : Nat → Server) (m : Contents) (call : Call) (stage : Stage) : Prop :=
  match stage.2 with
  | .inl result => (∃ due, stage.1.Tracks servers m due []) ∧ m.Answers call result
  | .inr progress => ∃ due, stage.1.Underway servers m due call progress

/-! ## Reads -/

/-- Answers that nobody waits for may be forgotten: `Tracks` says nothing of which have
arrived. -/
theorem Tracks.forget (h : c.Tracks servers m due rest) :
    c.forgetAnswers.Tracks servers m due rest :=
  ⟨h.nonempty, h.running, h.nodes, by simp [forgetAnswers], h.contents⟩

/-- A read of an invalid key counts, and no more. -/
theorem Tracks.miss (h : c.Tracks servers m due rest) (key : String) (e : CacheError) :
    (c.missInvalid key e).1.Tracks servers m due rest :=
  ⟨h.nonempty, h.running, h.nodes, h.arrived, h.contents⟩

/-- `settleRead` returns the value that has been found, and only counts besides. -/
theorem Tracks.settleRead (h : c.Tracks servers m due rest) (key : String)
    (value : Option ByteArray) :
    (c.settleRead key (.ok value)).1 = value ∧
      (c.settleRead key (.ok value)).2.1.Tracks servers m due rest ∧
      (c.settleRead key (.ok value)).2.1.nodes = c.nodes ∧
      (c.settleRead key (.ok value)).2.1.Awaits = c.Awaits := by
  cases value <;> exact ⟨rfl, ⟨h.nonempty, h.running, h.nodes, h.arrived, h.contents⟩, rfl, rfl⟩

/-- `addFound` extends `Collects` by one key. -/
theorem Collects.addFound {settled : List String} {found : Found} (h : Collects m settled found)
    (key : String) : Collects m (settled ++ [key]) (addFound found key (m key)) := by
  intro k
  have hk := h k
  by_cases hkey : k = key
  · subst hkey
    cases hm : m k with
    | none => simp_all [Cluster.addFound]
    | some value => simp [Cluster.addFound]
  · have hadded : (Cluster.addFound found key (m key))[k]? = found[k]? := by
      cases m key with
      | none => rfl
      | some value =>
        rw [Cluster.addFound, Std.TreeMap.getElem?_insert, if_neg]
        simpa [Std.compare_eq_iff_eq] using Ne.symm hkey
    simp [hadded, hk, hkey]

/-- `settleReads` waits at the first read whose outcome is not there. -/
theorem settleReads_of_none {late : Bool} {found : Found} {read : PendingRead}
    {reads : List PendingRead} (hanswer : read.answer = .ok ticket)
    (houtcome : c.outcome? late read.node ticket = none) :
    c.settleReads late found (read :: reads) =
      .waits c (.getMany ticket (read :: reads) found) [] := by
  simp only [Cluster.settleReads, hanswer, houtcome]

/-- `settleReads` takes a read whose outcome is there and goes on to the others. -/
theorem settleReads_of_some {late : Bool} {found : Found} {read : PendingRead}
    {reads : List PendingRead} {finding : Finding} (hanswer : read.answer = .ok ticket)
    (houtcome : c.outcome? late read.node ticket = some finding) :
    ∃ notices, c.settleReads late found (read :: reads) =
      { (c.settleRead read.key finding).2.1.settleReads late
          (addFound found read.key (c.settleRead read.key finding).1) reads with notices } := by
  simp only [Cluster.settleReads, hanswer, houtcome]
  exact ⟨_, rfl⟩

/-- Reads are settled as far as their answers are there, and all are on a client that is
`Drained`. -/
theorem Tracks.settleReads {keys settled : List String} {reads : List PendingRead} {found : Found}
    (h : c.Tracks servers m due []) (hkeys : keys.filter isValidKey = settled ++ reads.map (·.key))
    (hfound : Collects m settled found) (hreads : ∀ read ∈ reads, Reads m due read)
    (hawaits : ∀ p ∈ sourcesOf reads, c.Awaits p.1 p.2) :
    Proceeds servers m (.getMany keys) (c.settleReads false found reads).stage ∧
      (c.Drained → ∃ result, (c.settleReads false found reads).next = .inl result) := by
  -- An answer that is there moves its read from those queued to those settled; the
  -- first that is not ends the step, with the rest as it was.
  induction reads generalizing c settled found with
  | nil =>
      refine ⟨⟨⟨due, h⟩, fun key => ?_⟩, fun _ => ⟨_, rfl⟩⟩
      have hsettled : settled = keys.filter isValidKey := by simpa using hkeys.symm
      rw [hfound key, hsettled, Contents.read]
      by_cases hvalid : isValidKey key = true <;> simp [hvalid]
  | cons read reads ih =>
      obtain ⟨ticket, hanswer, hdue⟩ := hreads read List.mem_cons_self
      obtain houtcome | ⟨houtcome, hdrained⟩ := h.outcome
        (hawaits (read.node, ticket) (mem_sourcesOf.mpr ⟨read, List.mem_cons_self, hanswer, rfl⟩))
      · rw [hdue] at houtcome
        obtain ⟨hvalue, htracks, hnodes, hsame⟩ := h.settleRead read.key (m read.key)
        obtain ⟨notices, hturn⟩ : ∃ notices, c.settleReads false found (read :: reads) = _ :=
          settleReads_of_some hanswer houtcome
        rw [hvalue] at hturn
        obtain ⟨hproceeds, hreturns⟩ := ih htracks (by simpa using hkeys) (hfound.addFound read.key)
          (fun r hr => hreads r (List.mem_cons_of_mem read hr)) fun p hp => by
            obtain ⟨r, hr, hp⟩ := mem_sourcesOf.mp hp
            exact hsame ▸ hawaits p (mem_sourcesOf.mpr ⟨r, List.mem_cons_of_mem read hr, hp⟩)
        rw [hturn]
        exact ⟨hproceeds, fun hd => hreturns fun n hn => hd n (hnodes ▸ hn)⟩
      · rw [settleReads_of_none hanswer houtcome]
        exact ⟨⟨due, h, ⟨settled, hkeys, hfound, hreads⟩, hawaits, by simp [Progress.unflushed]⟩,
          fun hd => absurd hd hdrained⟩

/-! ## Queueing -/

/-- `nodeOf` gives a node of the client. -/
theorem Tracks.nodeOf_lt (h : c.Tracks servers m due rest) (key : String) :
    c.nodeOf key < c.nodes.length := nodeIndex_lt _ (List.length_pos_iff.mpr h.nonempty)

/-- **A command** with a ticket is queued where it meets no full queue. What the node's
commands before it find is what it will find. -/
theorem Tracks.submit (h : c.Tracks servers m due rest) (hi : i < c.nodes.length)
    (hfull : c.isFullAt i = false) (command : Ticket → Command)
    (hticket : (command c.nextTicket).ticket? = some c.nextTicket) {value : Option ByteArray}
    (hvalue : ∀ n, c.nodes[i]? = some n →
      (command c.nextTicket).found ((n.dataAt (servers i)).after n.backlog) = value)
    (m' : Contents) (rest' : List Nat)
    (hother : ∀ key, c.nodeOf key ≠ i → c.nodeOf key ∉ rest' →
      c.nodeOf key ∉ rest ∧ m' key = m key)
    (hsame : ∀ n, c.nodes[i]? = some n → ∀ key, c.nodeOf key = i → i ∉ rest' →
      (command c.nextTicket).apply ((n.dataAt (servers i)).after n.backlog) key = m' key) :
    ∃ c', c.submit i command = (c', .ok c.nextTicket) ∧
      c'.Tracks servers m' (Function.update due c.nextTicket value) rest' ∧
      c'.Awaits i c.nextTicket ∧ c'.nodes.length = c.nodes.length ∧
      ∀ j ticket, c.Awaits j ticket → c'.Awaits j ticket := by
  have hn : c.nodes[i]? = some c.nodes[i] := List.getElem?_eq_getElem hi
  have hnode : c.nodes[i].isFull = false := by simpa [isFullAt, hn] using hfull
  obtain ⟨n', hqueued, hhealthy, hbacklog, hdata⟩ :=
    (h.nodes i _ hn).healthy.submit hnode (command c.nextTicket)
  refine ⟨{ c with nodes := c.nodes.set i n', nextTicket := c.nextTicket + 1 }, ?_, ?_,
    awaits_queued hn hbacklog hticket, List.length_set, fun j t ha => awaits_queue hn hbacklog ha⟩
  · simp only [Cluster.submit, hn, hqueued]
  · refine h.queue hn hhealthy hbacklog hdata (Nat.le_succ _)
      (fun t ht => Function.update_of_ne ht.ne _ _) (fun t ht => ?_) hother (hsame _ hn)
    obtain rfl : c.nextTicket = t := Option.some.inj (hticket.symm.trans ht)
    exact ⟨Nat.lt_succ_self _, by rw [Function.update_self, hvalue _ hn]⟩

/-- A read is queued: the value due is the one that the map has. -/
theorem Tracks.submitGet (h : c.Tracks servers m due []) {key : String}
    (hfull : c.isFullAt (c.nodeOf key) = false) :
    ∃ c', c.submit (c.nodeOf key) (.get key) = (c', .ok c.nextTicket) ∧
      c'.Tracks servers m (Function.update due c.nextTicket (m key)) [] ∧
      c'.Awaits (c.nodeOf key) c.nextTicket ∧ c'.nodes.length = c.nodes.length ∧
      ∀ j ticket, c.Awaits j ticket → c'.Awaits j ticket :=
  h.submit (h.nodeOf_lt key) hfull (.get key) rfl
    (fun n hn => h.contents _ n hn List.not_mem_nil key rfl) m []
    (fun _ _ _ => ⟨List.not_mem_nil, rfl⟩)
    (fun n hn key' hkey' _ => h.contents _ n hn List.not_mem_nil key' hkey')

/-- What a key is changed to (`Function.update`) reaches the map and the key's node
alike. -/
theorem Tracks.update (h : c.Tracks servers m due []) (key : String) (value : Option ByteArray) :
    (∀ key', c.nodeOf key' ≠ c.nodeOf key → Function.update m key value key' = m key') ∧
      ∀ n, c.nodes[c.nodeOf key]? = some n → ∀ key', c.nodeOf key' = c.nodeOf key →
        Function.update ((n.dataAt (servers (c.nodeOf key))).after n.backlog) key value key' =
          Function.update m key value key' := by
  refine ⟨fun key' hne => Function.update_of_ne (fun hkey => hne (by rw [hkey])) _ _, ?_⟩
  intro n hn key' hkey'
  rw [Function.update_apply, Function.update_apply,
    h.contents _ n hn List.not_mem_nil key' hkey']

/-! ## Calls that start -/

variable {call : Call} {unixSeconds : Int}

/-- A read of one key `Proceeds`. -/
theorem Tracks.startGet (h : c.Tracks servers m due []) {key : String}
    (haccepts : c.accepts (.get key) = true) :
    Proceeds servers m (.get key) (c.startGet key).stage := by
  unfold Cluster.startGet
  cases hvalid : isValidKey key with
  | false =>
      obtain ⟨e, he⟩ := validateKey_of_invalid hvalid
      rw [he]
      exact ⟨⟨due, h.miss key e⟩, by simp [Contents.Answers, Contents.read, hvalid]⟩
  | true =>
      have hfull : c.isFullAt (c.nodeOf key) = false := by simpa [accepts, hvalid] using haccepts
      obtain ⟨c', hsubmit, htracks, hawaits, -⟩ := h.submitGet hfull
      rw [validateKey_of_valid hvalid]
      simp only [hsubmit]
      refine ⟨_, htracks, ⟨rfl, hvalid, Function.update_self ..⟩, fun p hp => ?_,
        by simp [Progress.unflushed]⟩
      obtain rfl : p = (c.nodeOf key, c.nextTicket) := by simpa [Progress.sources] using hp
      exact hawaits

/-- So does a delete. -/
theorem Tracks.startDelete (h : c.Tracks servers m due []) {key : String}
    (haccepts : c.accepts (.delete key) = true) :
    Proceeds servers (m.issue (.delete key)) (.delete key) (c.startDelete key).stage := by
  unfold Cluster.startDelete
  cases hvalid : isValidKey key with
  | false =>
      obtain ⟨e, he⟩ := validateKey_of_invalid hvalid
      have hissue : m.issue (.delete key) = m := by simp [Contents.issue, hvalid]
      rw [he, hissue]
      exact ⟨⟨due, h⟩, trivial⟩
  | true =>
      have hfull : c.isFullAt (c.nodeOf key) = false := by simpa [accepts, hvalid] using haccepts
      have hissue : m.issue (.delete key) = Function.update m key none := if_pos hvalid
      obtain ⟨hother, hsame⟩ := h.update key none
      obtain ⟨c', hsubmit, htracks, hawaits, -⟩ :=
        h.submit (h.nodeOf_lt key) hfull (.delete key) rfl
          (fun _ _ => rfl) (Function.update m key none) []
          (fun key' hne _ => ⟨List.not_mem_nil, hother key' hne⟩)
          (fun n hn key' hkey' _ => hsame n hn key' hkey')
      rw [validateKey_of_valid hvalid]
      simp only [hsubmit]
      refine ⟨_, hissue ▸ htracks, trivial, fun p hp => ?_, by simp [Progress.unflushed]⟩
      obtain rfl : p = (c.nodeOf key, c.nextTicket) := by simpa [Progress.sources] using hp
      exact hawaits

/-- So does a write, which returns at once. -/
theorem Tracks.startSet (h : c.Tracks servers m due []) {key : String} {value : ByteArray}
    {ttl : UInt32} (haccepts : c.accepts (.set key value ttl) = true) :
    Proceeds servers (m.issue (.set key value ttl)) (.set key value ttl)
      (c.startSet unixSeconds key value ttl).stage := by
  unfold Cluster.startSet
  cases hvalid : isValidKey key with
  | false =>
      obtain ⟨e, he⟩ := validateKey_of_invalid hvalid
      have hissue : m.issue (.set key value ttl) = m := by simp [Contents.issue, hvalid]
      rw [he, hissue]
      exact ⟨⟨due, h.nonempty, h.running, h.nodes, h.arrived, h.contents⟩, trivial⟩
  | true =>
      have hi := h.nodeOf_lt key
      have hn : c.nodes[c.nodeOf key]? = some c.nodes[c.nodeOf key] := List.getElem?_eq_getElem hi
      have hfull : c.nodes[c.nodeOf key].isFull = false := by
        simpa [accepts, hvalid, isFullAt, hn] using haccepts
      have hissue : m.issue (.set key value ttl) = Function.update m key (some value) :=
        if_pos hvalid
      obtain ⟨hother, hsame⟩ := h.update key (some value)
      obtain ⟨n', hqueued, hhealthy, hbacklog, hdata⟩ :=
        (h.nodes _ _ hn).healthy.submitWrite hfull key value (wireExpiration ttl unixSeconds)
      rw [validateKey_of_valid hvalid, hissue]
      simp only [hn, hqueued]
      refine ⟨⟨due, ?_⟩, trivial⟩
      exact h.queue hn hhealthy hbacklog hdata le_rfl (fun _ _ => rfl) (by simp [Command.ticket?])
        (fun key' hne _ => ⟨List.not_mem_nil, hother key' hne⟩)
        (fun key' hkey' _ => hsame _ hn key' hkey')

/-- Only answers under tickets that have been given out are awaited. -/
theorem Tracks.lt_of_awaits (h : c.Tracks servers m due rest) (ha : c.Awaits i ticket) :
    ticket < c.nextTicket := by
  obtain ha | ⟨n, hn, ht⟩ := ha
  · obtain ⟨p, hp, rfl⟩ := List.mem_map.mp ha
    exact (h.arrived p hp).1
  · exact (h.nodes i n hn).issued ticket ht

/-- The next read of several is queued: it will find what the map has. -/
theorem Underway.queueRead {call : Call} {key : String} {left : List String}
    {reads : List PendingRead}
    (h : c.Underway servers m due call (.queues (key :: left) reads))
    (haccepts : c.acceptsNext (.queues (key :: left) reads) = true) :
    Proceeds servers m call (c.goOn false (.queues (key :: left) reads)) := by
  obtain ⟨htracks, hexpects, hawaits, -⟩ := h
  cases call with
  | getMany keys =>
      obtain ⟨hkeys, hreads⟩ := hexpects
      simp only [goOn, submitReads]
      cases hvalid : isValidKey key with
      | false =>
          obtain ⟨e, he⟩ := validateKey_of_invalid hvalid
          simp only [he, List.append_nil]
          rw [List.filter_cons_of_neg (by simp [hvalid])] at hkeys
          exact ⟨due, htracks.miss key e, ⟨hkeys, hreads⟩, hawaits, by simp [Progress.unflushed]⟩
      | true =>
          have hfull : c.isFullAt (c.nodeOf key) = false := by
            simpa [acceptsNext, hvalid] using haccepts
          obtain ⟨c', hsubmit, htracks', hawaits', -, hkeep⟩ := htracks.submitGet hfull
          simp only [validateKey_of_valid hvalid, hsubmit]
          rw [List.filter_cons_of_pos hvalid] at hkeys
          refine ⟨_, htracks', ⟨by simp [hkeys], fun read hread => ?_⟩, fun p hp => ?_,
            by simp [Progress.unflushed]⟩
          · obtain hread | hread := List.mem_append.mp hread
            · obtain ⟨ticket, hanswer, hdue⟩ := hreads read hread
              have hold := htracks.lt_of_awaits
                (hawaits (read.node, ticket) (mem_sourcesOf.mpr ⟨read, hread, hanswer, rfl⟩))
              exact ⟨ticket, hanswer, by rw [Function.update_of_ne hold.ne, hdue]⟩
            · obtain rfl := List.mem_singleton.mp hread
              exact ⟨c.nextTicket, rfl, Function.update_self ..⟩
          · obtain ⟨read, hread, hanswer, hnode⟩ := mem_sourcesOf.mp hp
            obtain hread | hread := List.mem_append.mp hread
            · exact hkeep _ _ (hawaits p (mem_sourcesOf.mpr ⟨read, hread, hanswer, hnode⟩))
            · obtain rfl := List.mem_singleton.mp hread
              rw [← hnode, ← Except.ok.inj hanswer]
              exact hawaits'
  | _ => exact hexpects.elim

/-- Flushing the nodes in `rest`, the first of which has room, `Proceeds` on the empty
map. -/
theorem Tracks.flushFrom (h : c.Tracks servers m due rest) (hm : m = fun _ => none)
    (hrest : ∀ i ∈ rest, i < c.nodes.length)
    (hfull : ∀ i ∈ rest.head?, c.isFullAt i = false) :
    Proceeds servers m .clear (c.flushFrom rest).stage ∧
      ∀ progress, (c.flushFrom rest).stage.2 = .inr progress → progress.toDo < rest.length := by
  cases rest with
  | nil => exact ⟨⟨⟨due, h⟩, trivial⟩, fun progress hprogress => nomatch hprogress⟩
  | cons i rest =>
      obtain ⟨c', hsubmit, htracks, hawaits, hlength, -⟩ :=
        h.submit (hrest i List.mem_cons_self) (hfull i rfl) .flush rfl (fun _ _ => rfl) m rest
          (fun key hne hkey => ⟨by simp [hne, hkey], rfl⟩) (fun _ _ key _ _ => by rw [hm]; rfl)
      unfold Cluster.flushFrom
      simp only [hsubmit]
      refine ⟨⟨_, htracks, hm, fun p hp => ?_, fun j hj => ?_⟩, fun progress hprogress => ?_⟩
      · obtain rfl : p = (i, c.nextTicket) := by simpa [Progress.sources] using hp
        exact hawaits
      · exact hlength.symm ▸ hrest j (List.mem_cons_of_mem i hj)
      · obtain rfl : Progress.waits (.clear i c.nextTicket rest) = progress := Sum.inr.inj hprogress
        simp [Progress.toDo]

/-- A clear begins with every node still to be flushed. -/
theorem Tracks.startClear (h : c.Tracks servers m due []) (haccepts : c.accepts .clear = true) :
    Proceeds servers (fun _ => none) .clear (c.flushFrom c.positions).stage := by
  -- With every node still to be flushed, nothing is said yet of what is stored.
  have hall : c.Tracks servers (fun _ => none) due c.positions := by
    refine ⟨h.nonempty, h.running, h.nodes, h.arrived, fun i n hn hi => absurd ?_ hi⟩
    exact List.mem_range.mpr (List.getElem?_eq_some_iff.mp hn).1
  refine (hall.flushFrom rfl (fun i hi => List.mem_range.mp hi) fun i hi => ?_).1
  obtain rfl : i = 0 := by
    obtain ⟨k, hk⟩ := Nat.exists_eq_succ_of_ne_zero (List.length_pos_iff.mpr h.nonempty).ne'
    simpa [positions, hk, List.range_succ_eq_map, eq_comm] using hi
  simpa [accepts] using haccepts

/-- **A call that starts** `Proceeds`: it has come to the result that the map gives, or
is on the way to it. -/
theorem Tracks.begin (h : c.Tracks servers m due []) (haccepts : c.accepts call = true) :
    Proceeds servers (m.issue call) call (c.begin unixSeconds call) := by
  have hstart : c.start unixSeconds call = c.startRunning unixSeconds call := by
    cases call <;> simp [Cluster.start, h.running]
  unfold Cluster.begin
  rw [hstart]
  cases call with
  | get key => exact h.startGet haccepts
  | getMany keys =>
      simp only [h.running, Bool.false_eq_true, if_false]
      exact ⟨due, h, ⟨rfl, by simp⟩,
        by simp [Progress.sources, sourcesOf], by simp [Progress.unflushed]⟩
  | set key value ttl => exact h.startSet haccepts
  | delete key => exact h.startDelete haccepts
  | clear => exact h.startClear haccepts
  | stop => contradiction
  | awaitWrites => contradiction

/-! ## Calls that go on -/

variable {wait : Waiting} {progress : Progress}

/-- Once nothing is left to run, no queue is full. -/
theorem Tracks.acceptsNext (h : c.Tracks servers m due rest) (hdrained : c.Drained)
    (progress : Progress) : c.acceptsNext progress = true := by
  have hfree (j : Nat) : c.isFullAt j = false := by
    cases hj : c.nodes[j]? with
    | none => simp [isFullAt, hj]
    | some n =>
        have hempty := hdrained n (List.mem_of_getElem? hj)
        simp [isFullAt, hj, (h.nodes j n hj).healthy.isFull_of_backlog hempty]
  cases progress with
  | queues left reads => cases left <;> simp [Cluster.acceptsNext, hfree]
  | waits wait => cases wait <;> simp [Cluster.acceptsNext, hfree]

/-- The call goes on as one map says (`Proceeds`), and gets ahead if nothing is left to
run. -/
def GetsAhead (c : Cluster) (servers : Nat → Server) (m : Contents) (call : Call)
    (progress : Progress) (stage : Stage) : Prop :=
  Proceeds servers m call stage ∧
    (c.Drained → ∀ progress', stage.2 = .inr progress' → progress'.toDo < progress.toDo)

/-- What the step of a waiting call comes to if its answer is not there. -/
theorem Underway.stays (h : c.Underway servers m due call (.waits wait)) (hdrained : ¬c.Drained) :
    c.GetsAhead servers m call (.waits wait) (Turn.waits c wait []).stage :=
  ⟨⟨due, h⟩, fun hd => absurd hd hdrained⟩

/-- What a call under way reads is the answer due, or is not there yet. -/
theorem Underway.outcome (h : c.Underway servers m due call progress)
    (hsource : (i, ticket) ∈ progress.sources) :
    c.outcome? false i ticket = some (.ok (due ticket)) ∨
      c.outcome? false i ticket = none ∧ ¬c.Drained :=
  h.tracks.outcome (h.awaits (i, ticket) hsource)

/-- A call that waits `GetsAhead`. -/
theorem Underway.resume (h : c.Underway servers m due call (.waits wait))
    (haccepts : c.acceptsNext (.waits wait) = true) :
    c.GetsAhead servers m call (.waits wait) (c.resume false wait).stage := by
  have hexpects := h.expects
  cases wait with
  | get key i ticket =>
      obtain houtcome | ⟨houtcome, hdrained⟩ := h.outcome (List.mem_singleton_self (i, ticket))
      · simp only [Cluster.resume, houtcome]
        cases call with
        | get key' =>
            obtain ⟨rfl, hvalid, hdue⟩ := hexpects
            obtain ⟨hvalue, htracks, -, -⟩ := h.tracks.settleRead key (due ticket)
            refine ⟨⟨⟨due, htracks⟩, ?_⟩, fun _ progress' hp => nomatch hp⟩
            show (c.settleRead key (.ok (due ticket))).1 = m.read key
            rw [hvalue, hdue, Contents.read, if_pos hvalid]
        | _ => exact hexpects.elim
      · simp only [Cluster.resume, houtcome]
        exact h.stays hdrained
  | getMany ticket reads found =>
      cases call with
      | getMany keys =>
          obtain ⟨settled, hkeys, hfound, hreads⟩ := hexpects
          obtain ⟨hproceeds, hreturns⟩ := h.tracks.settleReads hkeys hfound hreads h.awaits
          refine ⟨hproceeds, fun hd progress' hp => ?_⟩
          obtain ⟨result, hresult⟩ := hreturns hd
          simp [Cluster.resume, Turn.stage, hresult] at hp
      | _ => exact hexpects.elim
  | delete key i ticket =>
      obtain houtcome | ⟨houtcome, hdrained⟩ := h.outcome (List.mem_singleton_self (i, ticket))
      · simp only [Cluster.resume, houtcome]
        cases call with
        | delete key' => exact ⟨⟨⟨due, h.tracks⟩, trivial⟩, fun _ progress' hp => nomatch hp⟩
        | _ => exact hexpects.elim
      · simp only [Cluster.resume, houtcome]
        exact h.stays hdrained
  | clear i ticket rest =>
      obtain houtcome | ⟨houtcome, hdrained⟩ := h.outcome (List.mem_singleton_self (i, ticket))
      · simp only [Cluster.resume, houtcome, settleFlush]
        cases call with
        | clear =>
            obtain ⟨hproceeds, hfewer⟩ := h.tracks.flushFrom hexpects h.inRange fun j hj => by
              have hhead : rest.head? = some j := hj
              rw [acceptsNext, houtcome, hhead] at haccepts
              simpa using haccepts
            exact ⟨hproceeds, fun _ => hfewer⟩
        | _ => exact hexpects.elim
      · simp only [Cluster.resume, houtcome]
        exact h.stays hdrained
  | awaitWrites i ticket rest => cases call <;> exact hexpects.elim
  | stop i rest => cases call <;> exact hexpects.elim

/-- **A call that goes on** `GetsAhead`: it has come to the result that the map gives,
or is still on the way to it. Once nothing is left to run it gets ahead. -/
theorem Underway.goOn (h : c.Underway servers m due call progress)
    (haccepts : c.acceptsNext progress = true) :
    c.GetsAhead servers m call progress (c.goOn false progress) := by
  cases progress with
  | waits wait => exact h.resume haccepts
  | queues left reads =>
      cases left with
      | cons key left =>
          refine ⟨h.queueRead haccepts, fun _ progress' hp => ?_⟩
          obtain rfl := Sum.inr.inj hp
          simp [Progress.toDo]
      | nil =>
          obtain ⟨htracks, hexpects, hawaits, -⟩ := h
          cases call with
          | getMany keys =>
              obtain ⟨hkeys, hreads⟩ := hexpects
              have hnone : Collects m [] {} := fun key => by simp
              obtain ⟨hproceeds, hreturns⟩ :=
                htracks.settleReads (by simpa using hkeys) hnone hreads hawaits
              refine ⟨hproceeds, fun hd progress' hp => ?_⟩
              obtain ⟨result, hresult⟩ := hreturns hd
              simp [Cluster.goOn, Turn.stage, hresult] at hp
          | _ => exact hexpects.elim

/-! ## Workers -/

/-- What a call reads, it waits for. -/
theorem mem_tickets_of_sources {p : Nat × Ticket} (h : p ∈ progress.sources) :
    p.2 ∈ progress.tickets := by
  have hqueued {reads : List PendingRead} (hp : p ∈ sourcesOf reads) :
      p.2 ∈ reads.filterMap (·.answer.toOption) := by
    obtain ⟨read, hread, hanswer, -⟩ := mem_sourcesOf.mp hp
    exact List.mem_filterMap.mpr ⟨read, hread, by simp [hanswer, Except.toOption]⟩
  cases progress with
  | queues left reads => exact hqueued h
  | waits wait =>
      cases wait with
      | getMany ticket reads found => exact hqueued h
      | stop i rest => simp [Progress.sources] at h
      | _ => simp_all [Progress.sources, Progress.tickets, Waiting.tickets]

/-- `Underway` goes through a step of a worker. -/
theorem Underway.work (h : c.Underway servers m due call progress) {n : Node}
    (hi : c.nodes[i]? = some n)
    {wanted : Ticket → Bool} (hwanted : ∀ t ∈ progress.tickets, wanted t = true) :
    (c.worked i wanted (n.advance wanted (n.serve (servers i)).1)).Underway
      (Function.update servers i (n.serve (servers i)).2) m due call progress := by
  refine ⟨h.tracks.work hi wanted, h.expects, fun p hp => ?_, fun j hj => ?_⟩
  · exact h.tracks.awaits_work hi (hwanted _ (mem_tickets_of_sources hp)) (h.awaits p hp)
  · simpa [worked_eq] using h.inRange j hj

end Cluster

end CacheService.Remote
