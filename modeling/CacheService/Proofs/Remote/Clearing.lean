import CacheService.Proofs.Remote.Flushing

/-!
# CacheService.Proofs.Remote.Clearing

A clear of a client that is not stopped, step by step. It comes to the nodes in
order, passes over those whose queues are full, and waits at each of the others for
the answer to its flush.

* `Cluster.FlushesFrom` — where `Cluster.flushFrom` ends: at the end of the list, or at
  the first node that has room. `Cluster.settleFlush_eq` says what is counted there.
* `Visit` and `Sweeps` — what a clear has done, read off its own moves: one flush for
  each node with room, one failure for each flush that did not succeed.
* `Clearing` — a clear that is followed (`Followed`), with what has become of its
  flushes on their nodes (`System.Handed`) and where it stands (`ClearsAt`).
* `Turning` — the middle of a move, when the flush that was waited for is settled and
  the next nodes are still to come; `Turning.comes` is the move from there.

Every step of anybody keeps a `Clearing` (`Clearing.step`), and a step with the time
limit up brings the clear to another node (`Clearing.goesOn`).
-/

namespace CacheService.Remote

/-! ## What a clear does to the client -/

namespace Cluster

variable {c : Cluster}

/-- Where `Cluster.flushFrom` comes to: all queues that it meets are full, up to the end
or to a node with room, which is handed a flush. -/
inductive FlushesFrom (c : Cluster) (full : List Nat) : List Nat → Stage → Prop
  | returns : FlushesFrom c full [] ({ c with errors := c.errors + full.length }, .inl .done)
  | waits (i : Nat) (rest : List Nat) (n n' : Node) (node : c.nodes[i]? = some n)
      (room : n.isFull = false) (queued : n.submit (.flush c.nextTicket) = .ok n') :
      FlushesFrom c full (i :: rest)
        ({ c with
          errors := c.errors + full.length
          nodes := c.nodes.set i n'
          nextTicket := c.nextTicket + 1 },
        .inr (.waits (.clear i c.nextTicket rest)))

/-- **Flushing nodes in order**, none of which has been stopped: `FlushesFrom`
says where `flushFrom` ends. -/
theorem flushFrom_cases (hopened : ∀ n ∈ c.nodes, n.closed = false ∧ n.isGone = false)
    {left : List Nat} (hleft : ∀ i ∈ left, i < c.nodes.length) :
    ∃ full later, left = full ++ later ∧ (∀ i ∈ full, c.isFullAt i = true) ∧
      c.FlushesFrom full later (c.flushFrom left).stage := by
  induction left generalizing c with
  | nil => exact ⟨[], [], rfl, by simp, .returns⟩
  | cons i rest ih =>
      obtain ⟨n, hn⟩ : ∃ n, c.nodes[i]? = some n :=
        ⟨_, List.getElem?_eq_getElem (hleft i List.mem_cons_self)⟩
      obtain ⟨hopen, hruns⟩ := hopened n (List.mem_of_getElem? hn)
      cases hfull : n.isFull with
      | false =>
          obtain ⟨n', hqueued⟩ := Node.submit_of_room hopen hruns hfull (.flush c.nextTicket)
          refine ⟨[], i :: rest, rfl, by simp, ?_⟩
          have hsubmit : c.submit i .flush = ({ c with
              nodes := c.nodes.set i n', nextTicket := c.nextTicket + 1 }, .ok c.nextTicket) := by
            simp only [submit, hn, hqueued]
          unfold flushFrom
          rw [hsubmit]
          exact .waits i rest n n' hn hfull hqueued
      | true =>
          obtain ⟨full, later, rfl, hall, hflushes⟩ :=
            ih (c := { c with errors := c.errors + 1 }) hopened fun j hj =>
              hleft j (List.mem_cons_of_mem i hj)
          have hsubmit : c.submit i .flush =
              (c, .error (.remote (.queueFull n.address n.capacity))) := by
            simp only [submit, hn, (Node.submit_of_full hopen hruns hfull _).1]
          refine ⟨i :: full, later, rfl, fun j hj => ?_, ?_⟩
          · obtain rfl | hj := List.mem_cons.mp hj
            · simp [isFullAt, hn, hfull]
            · exact hall j hj
          · unfold flushFrom
            rw [hsubmit]
            have hstage : c.FlushesFrom (i :: full) later
                (flushFrom { c with errors := c.errors + 1 } (full ++ later)).stage := by
              generalize (flushFrom { c with errors := c.errors + 1 } (full ++ later)).stage = stage
                at hflushes
              have hsum : c.errors + 1 + full.length = c.errors + (i :: full).length := by
                rw [List.length_cons]
                omega
              cases hflushes with
              | returns =>
                  rw [hsum]
                  exact .returns
              | waits j rest m m' hm hroom hqueued =>
                  rw [hsum]
                  exact .waits j rest m m' hm hroom hqueued
            exact hstage

/-- `settleFlush` counts the outcome of a flush if it is a failure, and changes nothing
else. -/
theorem settleFlush_eq (c : Cluster) (i : Nat) (finding : Finding) :
    ∃ timeouts errors, (c.settleFlush i finding).1 = { c with timeouts, errors } ∧
      timeouts + errors = c.failures + (if finding.toBool then 0 else 1) := by
  cases finding with
  | ok value => exact ⟨c.timeouts, c.errors, rfl, rfl⟩
  | error e =>
      unfold settleFlush settleFailure
      dsimp only
      split
      · exact ⟨_, _, rfl, by simp [failures, stats, Except.toBool]; omega⟩
      · exact ⟨_, _, rfl, by simp [failures, stats, Except.toBool]; omega⟩

end Cluster

/-! ## What a clear has done -/

open Cluster (Call Progress Result Stage)

/-- A node that a clear has dealt with, with the systems in which it came to the node
and went on from it. -/
structure Visit where
  node : Nat
  arrival : System
  departure : System

namespace Visit

/-- Whether the node's queue had room on `arrival`. -/
def hasRoom (v : Visit) : Bool := !v.arrival.cluster.isFullAt v.node

/-- The flush for the node, under the ticket that was next on `arrival`. -/
def flush (v : Visit) : Nat × Command := (v.node, .flush v.arrival.cluster.nextTicket)

/-- Whether the flush was queued, and its acknowledgement had been read on `departure`. -/
def succeeded (v : Visit) : Bool :=
  v.hasRoom && v.departure.acknowledged v.arrival.cluster.nextTicket

end Visit

/-- Visits that follow one another: each starts with the `departure` of the one before. -/
inductive Leads : System → List Visit → System → Prop
  | nil (s : System) : Leads s [] s
  | cons (v : Visit) (visits : List Visit) (s : System) (next : Leads v.departure visits s) :
      Leads v.arrival (v :: visits) s

/-- `Leads` is transitive: visits are put one behind the other where they meet. -/
theorem Leads.append {s s' s'' : System} {visits visits' : List Visit} (h : Leads s visits s')
    (h' : Leads s' visits' s'') : Leads s (visits ++ visits') s'' := by
  induction h with
  | nil s => exact h'
  | cons v visits s _ ih => exact .cons v _ _ (ih h')

/-- The moves of a clear that starts on one system and has `reached` another, node after
node: it has handed a flush to every node that had room, in order, besides those
`waiting` to be settled, and has counted every flush that failed. It stays at a node
only for the answer to its flush. -/
structure Sweeps (start : System) (moves : List (System × System)) (visits : List Visit)
    (reached : System) (waiting : List (Nat × Command)) : Prop where
  queued : queuedIn moves = (visits.filter Visit.hasRoom).map Visit.flush ++ waiting
  failures : failuresIn moves = visits.countP fun v => !v.succeeded
  seen : ∀ v ∈ visits, v.arrival ∈ moves.map (·.1) ∧ v.departure ∈ moves.map (·.1)
  passes : ∀ v ∈ visits, v.hasRoom = false → v.departure = v.arrival
  leads : Leads start visits reached

/-- A move of `Sweeps` settles what was waiting and comes to more nodes. -/
theorem Sweeps.move {start reached reached' : System} {moves : List (System × System)}
    {visits news : List Visit} {waiting waiting' : List (Nat × Command)}
    (h : Sweeps start moves visits reached waiting) (s s' : System)
    (hqueued : waiting ++ s.cluster.added s'.cluster =
      (news.filter Visit.hasRoom).map Visit.flush ++ waiting')
    (hfailures : s'.cluster.failures = s.cluster.failures + news.countP fun v => !v.succeeded)
    (hseen : ∀ v ∈ news, v.arrival ∈ (moves ++ [(s, s')]).map (·.1) ∧ v.departure = s)
    (hpasses : ∀ v ∈ news, v.hasRoom = false → v.departure = v.arrival)
    (hleads : Leads start (visits ++ news) reached') :
    Sweeps start (moves ++ [(s, s')]) (visits ++ news) reached' waiting' := by
  refine ⟨?_, ?_, fun v hv => ?_, fun v hv => ?_, hleads⟩
  · rw [queuedIn_concat, h.queued, List.append_assoc, hqueued, List.filter_append, List.map_append,
      List.append_assoc]
  · rw [failuresIn_concat, h.failures, hfailures, List.countP_append]
    omega
  · obtain hv | hv := List.mem_append.mp hv
    · rw [List.map_append]
      exact (h.seen v hv).imp (List.mem_append_left _) (List.mem_append_left _)
    · refine ⟨(hseen v hv).1, ?_⟩
      rw [(hseen v hv).2]
      simp
  · exact (List.mem_append.mp hv).elim (h.passes v) (hpasses v)

/-! ## The clear -/

/-- Where a clear stands that has dealt with `visits` and has `reached` the next node,
if any, and the flush that is waiting there to be settled. -/
inductive ClearsAt (f : Followed) (visits : List Visit) (reached : System) :
    Standing → List (Nat × Command) → Prop
  | waits (position i : Nat) (rest : List Nat)
      (underway : f.system.underway[position]? =
        some (.clear, .waits (.clear i reached.cluster.nextTicket rest)))
      (room : reached.cluster.isFullAt i = false)
      (nodes : visits.map Visit.node ++ i :: rest = f.system.cluster.positions)
      (awaited : f.system.Awaited reached.cluster.nextTicket)
      (seen : reached ∈ f.moves.map (·.1)) :
      ClearsAt f visits reached (.underway position) [(i, .flush reached.cluster.nextTicket)]
  | returned (nodes : visits.map Visit.node = f.system.cluster.positions)
      (result : (Call.clear, Result.done) ∈ f.system.returned)
      (last : (f.moves.map (·.1)).getLast? = some reached) :
      ClearsAt f visits reached (.returned .done) []
  | abandoned (waiting : List (Nat × Command)) : ClearsAt f visits reached .abandoned waiting

/-- A clear that is followed, with what it has done (`Sweeps`), what has become of its
flushes (`System.Handed`) and where it stands (`ClearsAt`), while servers store
`stored`. -/
structure Clearing (spared : Nat → Ticket → String → ByteArray → Prop) (start : System)
    (f : Followed)
    (stored : Nat → Contents) (visits : List Visit) (reached : System)
    (waiting : List (Nat × Command)) : Prop where
  sweeps : Sweeps start f.moves visits reached waiting
  handed : ∀ i ticket, (i, .flush ticket) ∈ queuedIn f.moves →
    System.Handed (spared i ticket) f.system stored i ticket
  stage : ClearsAt f visits reached f.standing waiting

/-- A clear in the middle of a move. It has settled the flush that it waited for, if
any, which leaves the client `c`, and comes to the nodes that are `left`. -/
structure Turning (start : System) (moves : List (System × System)) (visits settled : List Visit)
    (s : System) (c : Cluster) (left : List Nat) : Prop where
  sweeps :
    ∃ reached, Sweeps start moves visits reached ((settled.filter Visit.hasRoom).map Visit.flush)
  base : c.nodes = s.cluster.nodes ∧ c.nextTicket = s.cluster.nextTicket
  ticketed : c.Ticketed
  failures : c.failures = s.cluster.failures + settled.countP fun v => !v.succeeded
  seen : ∀ v ∈ settled, v.arrival ∈ moves.map (·.1) ∧ v.departure = s ∧ v.hasRoom = true
  leads : Leads start (visits ++ settled) s
  positions : (visits ++ settled).map Visit.node ++ left = s.cluster.positions

section Moves

variable {spared : Nat → Ticket → String → ByteArray → Prop} {stored : Nat → Contents}
  {start s s' : System} {c : Cluster} {moves : List (System × System)}
  {visits settled : List Visit} {left : List Nat}

/-- The visits to nodes whose queues are full: all in one move, from `s` to `s`. -/
def passing (s : System) (full : List Nat) : List Visit := full.map fun i => ⟨i, s, s⟩

/-- `passing` visits the nodes that it is given. -/
theorem map_node_passing (s : System) (full : List Nat) :
    (passing s full).map Visit.node = full := by
  rw [passing, List.map_map]
  exact List.map_id _

/-- `passing` leaves a clear where it is. -/
theorem leads_passing (s : System) (full : List Nat) : Leads s (passing s full) s := by
  induction full with
  | nil => exact .nil s
  | cons i full ih => exact .cons ⟨i, s, s⟩ _ s ih

/-- What `Sweeps` says at the end of a move that passes over the nodes in `full`. -/
theorem Turning.passes (h : Turning start moves visits settled s c left) {full : List Nat}
    (hfull : ∀ i ∈ full, c.isFullAt i = true) {waiting : List (Nat × Command)}
    (hadded : s.cluster.added s'.cluster = waiting)
    (hfailures : s'.cluster.failures = c.failures + full.length) :
    Sweeps start (moves ++ [(s, s')]) (visits ++ (settled ++ passing s full)) s waiting := by
  have hroom : ∀ v ∈ passing s full, v.arrival = s ∧ v.departure = s ∧ v.hasRoom = false := by
    intro v hv
    obtain ⟨i, hi, rfl⟩ := List.mem_map.mp hv
    have hsame : s.cluster.isFullAt i = c.isFullAt i := by
      rw [Cluster.isFullAt, Cluster.isFullAt, h.base.1]
    exact ⟨rfl, rfl, by simp [Visit.hasRoom, hsame, hfull i hi]⟩
  obtain ⟨reached, hsweeps⟩ := h.sweeps
  refine hsweeps.move s s' ?_ ?_ (fun v hv => ?_) (fun v hv hv' => ?_) ?_
  · have hnone : (passing s full).filter Visit.hasRoom = [] :=
      List.filter_eq_nil_iff.mpr fun v hv => by simp [(hroom v hv).2.2]
    rw [List.filter_append, hnone, List.append_nil, hadded]
  · have hall : ((passing s full).countP fun v => !v.succeeded) = full.length := by
      rw [List.countP_eq_length.mpr fun v hv => by simp [Visit.succeeded, (hroom v hv).2.2]]
      exact List.length_map _
    rw [List.countP_append, hall, hfailures, h.failures, Nat.add_assoc]
  · rw [List.map_append]
    obtain hv | hv := List.mem_append.mp hv
    · exact ⟨List.mem_append_left _ (h.seen v hv).1, (h.seen v hv).2.1⟩
    · refine ⟨List.mem_append_right _ ?_, (hroom v hv).2.1⟩
      rw [(hroom v hv).1]
      exact List.mem_singleton.mpr rfl
  · obtain hv | hv := List.mem_append.mp hv
    · rw [(h.seen v hv).2.2] at hv'
      contradiction
    · rw [(hroom v hv).1, (hroom v hv).2.1]
  · rw [← List.append_assoc]
    exact h.leads.append (leads_passing s full)

/-- The nodes in `full` are visited, and those in `later` are still to come. -/
theorem Turning.visited {full later : List Nat}
    (h : Turning start moves visits settled s c (full ++ later)) :
    (visits ++ (settled ++ passing s full)).map Visit.node ++ later = s.cluster.positions := by
  rw [← h.positions]
  simp [map_node_passing]

/-- A `Turning` that meets no room any more is a `Clearing` that has returned. -/
theorem Turning.returns {full : List Nat}
    (h : Turning start moves visits settled s c (full ++ []))
    (hfull : ∀ i ∈ full, c.isFullAt i = true)
    (hcluster : s'.cluster = { c with errors := c.errors + full.length })
    (hreturned : (Call.clear, Result.done) ∈ s'.returned)
    (hhanded : ∀ i ticket, (i, .flush ticket) ∈ queuedIn moves →
      System.Handed (spared i ticket) s' stored i ticket) :
    Clearing spared start ⟨s', .returned .done, moves ++ [(s, s')]⟩ stored
      (visits ++ (settled ++ passing s full)) s [] := by
  have hsame : s'.cluster.nodes = s.cluster.nodes := by
    rw [hcluster]
    exact h.base.1
  have hadded := Cluster.added_of_nodes hsame
  refine ⟨h.passes hfull hadded ?_, fun i ticket hmem => hhanded i ticket ?_,
    .returned ?_ hreturned (by simp)⟩
  · rw [hcluster]
    simp [Cluster.failures, Cluster.stats, Nat.add_assoc]
  · rwa [queuedIn_concat, hadded, List.append_nil] at hmem
  · have hvisited := h.visited
    rw [List.append_nil] at hvisited
    rw [hvisited, Cluster.positions, Cluster.positions, hsame]

/-- A `Turning` that comes to a node with room hands it a flush, and is a `Clearing`
that waits for the answer. -/
theorem Turning.waits {full rest : List Nat} {i others : Nat} {n n' : Node}
    (h : Turning start moves visits settled s c (full ++ i :: rest)) (hs : s.Running)
    (hfull : ∀ i ∈ full, c.isFullAt i = true) (hn : c.nodes[i]? = some n)
    (hroom : n.isFull = false) (hsubmit : n.submit (.flush c.nextTicket) = .ok n')
    (hcluster : s'.cluster = { c with
      errors := c.errors + full.length
      nodes := c.nodes.set i n'
      nextTicket := c.nextTicket + 1 })
    (hanswered : s'.answered = s.answered)
    (hcall : s'.underway[others]? = some (.clear, .waits (.clear i c.nextTicket rest)))
    (hhanded : ∀ i ticket, (i, .flush ticket) ∈ queuedIn moves →
      System.Handed (spared i ticket) s' stored i ticket) :
    Clearing spared start ⟨s', .underway others, moves ++ [(s, s')]⟩ stored
      (visits ++ (settled ++ passing s full)) s [(i, .flush s.cluster.nextTicket)] := by
  obtain ⟨hnodes, hticket⟩ := h.base
  rw [hnodes] at hn
  rw [hticket] at hsubmit hcall
  have hset : s'.cluster.nodes = s.cluster.nodes.set i n' := by rw [hcluster, ← hnodes]
  have hbacklog :=
    Node.backlog_submit (hs.booked.nodes n (List.mem_of_getElem? hn)).unstarted hsubmit
  have hadded := Cluster.added_of_set hn hbacklog hset
  have hnew : s'.acknowledged s.cluster.nextTicket = false ∧
      System.Handed (spared i s.cluster.nextTicket) s' stored i s.cluster.nextTicket :=
    hs.handed hn hsubmit hset (by rw [hcluster, ← hticket]) hanswered
  refine ⟨h.passes hfull hadded ?_, fun j ticket hmem => ?_,
    .waits others i rest hcall ?_ ?_ ?_ (by simp)⟩
  · rw [hcluster]
    simp [Cluster.failures, Cluster.stats, Nat.add_assoc]
  · rw [queuedIn_concat, hadded] at hmem
    obtain hmem | hmem := List.mem_append.mp hmem
    · exact hhanded j ticket hmem
    · obtain ⟨rfl, hcommand⟩ := Prod.mk.inj (List.mem_singleton.mp hmem)
      obtain rfl := Command.flush.inj hcommand
      exact hnew.2
  · simp [Cluster.isFullAt, hn, hroom]
  · rw [h.visited, Cluster.positions, Cluster.positions, hset, List.length_set]
  · have hnone : s'.cluster.answer? s.cluster.nextTicket = none := by
      refine List.lookup_eq_none_iff.mpr fun p hp => bne_iff_ne.mpr fun heq => ?_
      rw [hcluster] at hp
      exact Nat.lt_irrefl _ (hticket ▸ heq ▸ h.ticketed.arrived p hp)
    rw [System.Awaited, hnone, hnew.1]
    rfl

/-- **A move of a clear.** From a `Turning`, `flushFrom` comes to more nodes, and
returns when there is none left. -/
theorem Turning.comes (h : Turning start moves visits settled s c left) (hs : s.Running)
    (hcluster : s'.cluster = (c.flushFrom left).stage.1) (hanswered : s'.answered = s.answered)
    {others : Nat}
    (hnext : s'.HasCome .clear others (c.flushFrom left).stage.2)
    (hhanded : ∀ i ticket, (i, .flush ticket) ∈ queuedIn moves →
      System.Handed (spared i ticket) s' stored i ticket) :
    ∃ full waiting, Clearing spared start
      ⟨s', .beside others (c.flushFrom left).stage.2, moves ++ [(s, s')]⟩ stored
      (visits ++ (settled ++ passing s full)) s waiting := by
  have hleft : ∀ i ∈ left, i < c.nodes.length := by
    intro i hi
    rw [h.base.1]
    refine List.mem_range.mp (?_ : i ∈ s.cluster.positions)
    rw [← h.positions]
    exact List.mem_append_right _ hi
  obtain ⟨full, later, rfl, hfull, hflushes⟩ :=
    Cluster.flushFrom_cases (fun n hn => hs.opened n (h.base.1 ▸ hn)) hleft
  generalize (c.flushFrom (full ++ later)).stage = stage at hcluster hnext hflushes ⊢
  cases hflushes with
  | returns => exact ⟨full, [], h.returns hfull hcluster hnext hhanded⟩
  | waits i rest n n' hn hroom hsubmit =>
      exact ⟨full, _, h.waits hs hfull hn hroom hsubmit hcluster hanswered hnext hhanded⟩

/-- **A clear starts**: the first move of `System.follow` is a `Clearing`. -/
theorem clearing_start (hs : s.Running) (hrunning : s.cluster.stopped = false) (unixSeconds : Int) :
    ∃ visits reached waiting,
      Clearing spared s (s.follow unixSeconds .clear) stored visits reached waiting := by
  have hbegin : s.fresh.begin unixSeconds .clear = (s.fresh.flushFrom s.fresh.positions).stage := by
    have hfresh : s.fresh.stopped = false := s.stopped_fresh.trans hrunning
    simp [Cluster.begin, Cluster.start, Cluster.startRunning, hfresh]
  have hturning : Turning s [] [] [] s s.fresh s.fresh.positions := by
    refine ⟨⟨s, rfl, rfl, by simp, by simp, .nil s⟩,
      ⟨s.base_fresh.nodes, s.base_fresh.nextTicket⟩, s.base_fresh.ticketed hs.ticketed, ?_, by simp,
      .nil s, ?_⟩
    · unfold System.fresh
      split <;> rfl
    · rw [Cluster.positions, s.base_fresh.nodes]
      rfl
  have hcluster : (s.step (.start unixSeconds .clear)).cluster =
      (s.fresh.flushFrom s.fresh.positions).stage.1 := by
    rw [← hbegin]
    exact System.cluster_turned ..
  have hnext : (s.step (.start unixSeconds .clear)).HasCome .clear s.underway.length
      (s.fresh.flushFrom s.fresh.positions).stage.2 :=
    hbegin ▸ s.hasCome_turned .clear (s.fresh.begin unixSeconds .clear)
  have hhanded : ∀ i ticket, (i, Command.flush ticket) ∈ queuedIn [] →
      System.Handed (spared i ticket) (s.step (.start unixSeconds .clear)) stored i ticket := by
        simp [queuedIn]
  obtain ⟨full, waiting, hclearing⟩ :=
    hturning.comes hs hcluster (s.answered_step (by simp)) hnext hhanded
  refine ⟨passing s full, s, waiting, ?_⟩
  rw [System.follow, hbegin]
  exact hclearing

end Moves

/-! ### Going on -/

namespace Cluster

variable {c : Cluster} {late : Bool} {i : Nat} {ticket : Ticket}

/-- What `outcome?` makes of an answer is a success only if the answer is there and is
one. -/
theorem toBool_outcome {finding : Finding} (h : c.outcome? late i ticket = some finding) :
    (c.answer? ticket).any Except.toBool = finding.toBool := by
  unfold outcome? at h
  cases hanswer : c.answer? ticket with
  | some given =>
      obtain rfl : given = finding := by simpa [hanswer] using h
      rfl
  | none =>
      rw [hanswer] at h
      split at h
      · contradiction
      · obtain rfl := Option.some.inj h
        rfl
      · split at h
        · obtain rfl := Option.some.inj h
          rfl
        · split at h
          · obtain rfl := Option.some.inj h
            rfl
          · contradiction

/-- Without an outcome, `goOn` leaves a clear where it is. -/
theorem goOn_clear_none {rest : List Nat} (h : c.outcome? late i ticket = none) :
    c.goOn late (.waits (.clear i ticket rest)) = (c, .inr (.waits (.clear i ticket rest))) := by
  simp only [goOn, resume, h]
  rfl

/-- With one, `goOn` settles the flush and goes on to the nodes behind. -/
theorem goOn_clear_some {rest : List Nat} {finding : Finding}
    (h : c.outcome? late i ticket = some finding) :
    c.goOn late (.waits (.clear i ticket rest)) =
      ((c.settleFlush i finding).1.flushFrom rest).stage := by
  simp only [goOn, resume, h]
  rfl

/-- With the time limit up, there is always an outcome. -/
theorem outcome_late (c : Cluster) (i : Nat) (ticket : Ticket) :
    ∃ finding, c.outcome? true i ticket = some finding := by
  unfold outcome?
  split
  · exact ⟨_, rfl⟩
  · exact ⟨_, rfl⟩
  · split <;> exact ⟨_, rfl⟩

end Cluster

section Steps

variable {spared : Nat → Ticket → String → ByteArray → Prop}
  {belated : Nat → String → ByteArray → Prop} {f : Followed} {stored stored' : Nat → Contents}
  {visits : List Visit} {start reached : System} {waiting : List (Nat × Command)} {st : Step}

/-- Every flush that a clear has handed out is still `Handed` after a step. -/
theorem Clearing.handed_step (h : Clearing spared start f stored visits reached waiting)
    (hs : f.system.Running)
    (hclose : ∀ j, st ≠ .close j) (hrunning : (f.system.step st).cluster.stopped = false)
    (hspares : f.system.Spares st belated spared)
    (hstores : f.system.Stores st belated stored stored') (i : Nat) (ticket : Ticket)
    (hmem : (i, .flush ticket) ∈ queuedIn f.moves) :
    System.Handed (spared i ticket) (f.system.step st) stored' i ticket :=
  (h.handed i ticket hmem).step hs hclose hrunning hspares hstores

/-- The flush that a `Clearing` waits for is settled, which makes a `Turning` of it. -/
theorem Clearing.settles {i : Nat} {rest : List Nat} {late : Bool} {finding : Finding}
    (h : Clearing spared start f stored visits reached [(i, .flush reached.cluster.nextTicket)])
    (hs : f.system.Running) (hroom : reached.cluster.isFullAt i = false)
    (hnodes : visits.map Visit.node ++ i :: rest = f.system.cluster.positions)
    (hawaited : f.system.Awaited reached.cluster.nextTicket) (hseen : reached ∈ f.moves.map (·.1))
    (houtcome : f.system.cluster.outcome? late i reached.cluster.nextTicket = some finding) :
    Turning start f.moves visits [⟨i, reached, f.system⟩] f.system
      (f.system.cluster.settleFlush i finding).1 rest := by
  obtain ⟨timeouts, errors, hsettled, hcount⟩ := f.system.cluster.settleFlush_eq i finding
  have hsucceeded : (Visit.mk i reached f.system).succeeded = finding.toBool := by
    rw [← Cluster.toBool_outcome houtcome, hawaited]
    simp [Visit.succeeded, Visit.hasRoom, hroom]
  rw [hsettled]
  refine ⟨⟨reached, ?_⟩, ⟨rfl, rfl⟩, ⟨hs.ticketed.queued, hs.ticketed.arrived⟩, ?_, ?_, ?_, ?_⟩
  · simpa [Visit.hasRoom, hroom, Visit.flush] using h.sweeps
  · refine hcount.trans ?_
    rw [List.countP_singleton, hsucceeded]
    cases finding.toBool <;> rfl
  · simpa [Visit.hasRoom, hroom] using hseen
  · exact h.sweeps.leads.append (.cons ⟨i, reached, f.system⟩ [] f.system (.nil f.system))
  · simpa using hnodes

/-- `Step.resume` takes a `Clearing` on. With the time limit up, it goes on from its
node. -/
theorem Clearing.goesOn (h : Clearing spared start f stored visits reached waiting) {position : Nat}
    {late : Bool}
    (hstanding : f.standing = .underway position) (hs : f.system.Running)
    (hhanded : ∀ i ticket, (i, .flush ticket) ∈ queuedIn f.moves →
      System.Handed (spared i ticket) (f.system.step (.resume position late)) stored' i ticket) :
    ∃ visits' reached' waiting',
      Clearing spared start (f.step (.resume position late)) stored' visits' reached' waiting' ∧
        (late = true → visits.length < visits'.length) := by
  have hstage := h.stage
  rw [hstanding] at hstage
  cases hstage with
  | waits _ i rest hcall hroom hnodes hawaited hseen =>
      have hcome := System.hasCome_resume hcall late
      have hcluster := (congrArg System.cluster (System.step_resume_some hcall late)).trans
        (System.cluster_turned ..)
      have hanswered : (f.system.step (.resume position late)).answered = f.system.answered :=
        f.system.answered_step (by simp)
      rw [Followed.step_own hstanding hcall]
      generalize f.system.step (.resume position late) = s' at hcome hcluster hanswered hhanded ⊢
      cases houtcome : f.system.cluster.outcome? late i reached.cluster.nextTicket with
      | none =>
          rw [Cluster.goOn_clear_none houtcome] at hcome hcluster ⊢
          have hadded : f.system.cluster.added s'.cluster = [] :=
            Cluster.added_of_nodes (by rw [hcluster])
          have hsweeps : Sweeps start (f.moves ++ [(f.system, s')]) (visits ++ []) reached
              [(i, .flush reached.cluster.nextTicket)] :=
            h.sweeps.move f.system s' (by simp [hadded]) (by simp [hcluster]) (by simp) (by simp)
              (by simpa using h.sweeps.leads)
          rw [List.append_nil] at hsweeps
          refine ⟨visits, reached, _, ⟨hsweeps, fun j ticket hmem => hhanded j ticket ?_, ?_⟩,
            fun hlate => ?_⟩
          · rwa [queuedIn_concat, hadded, List.append_nil] at hmem
          · refine .waits _ i rest hcome hroom ?_ ?_ ?_
            · rw [hnodes, hcluster]
            · rw [System.Awaited, hcluster, System.acknowledged, hanswered]
              exact hawaited
            · exact List.map_append ▸ List.mem_append_left _ hseen
          · obtain ⟨finding, hlast⟩ :=
              f.system.cluster.outcome_late i reached.cluster.nextTicket
            rw [hlate, hlast] at houtcome
            contradiction
      | some finding =>
          rw [Cluster.goOn_clear_some houtcome] at hcome hcluster ⊢
          obtain ⟨full, waiting', hclearing⟩ :=
            (h.settles hs hroom hnodes hawaited hseen houtcome).comes hs hcluster hanswered hcome
              hhanded
          exact ⟨_, _, waiting', hclearing, fun _ => by simp⟩

/-- **One step** of anybody keeps a `Clearing`. -/
theorem Clearing.step (h : Clearing spared start f stored visits reached waiting)
    (hs : f.system.Running)
    (hclose : ∀ j, st ≠ .close j) (hrunning : (f.system.step st).cluster.stopped = false)
    (hspares : f.system.Spares st belated spared)
    (hstores : f.system.Stores st belated stored stored') :
    ∃ visits' reached' waiting',
      Clearing spared start (f.step st) stored' visits' reached' waiting' := by
  have hhanded := h.handed_step hs hclose hrunning hspares hstores
  have hpositions : (f.system.step st).cluster.positions = f.system.cluster.positions := by
    have hlength := System.length_after f.system [st]
    rw [Cluster.positions, Cluster.positions, ← hlength]
    rfl
  have hstage := h.stage
  generalize hstanding : f.standing = standing at hstage
  cases hstage with
  | waits position i rest hcall hroom hnodes hawaited hseen =>
      by_cases hown : ∃ late, st = .resume position late
      · obtain ⟨late, rfl⟩ := hown
        obtain ⟨visits', reached', waiting', hclearing, -⟩ := h.goesOn hstanding hs hhanded
        exact ⟨visits', reached', waiting', hclearing⟩
      · obtain hstep | ⟨k, hstep, hcall'⟩ :=
          Followed.step_other hstanding hcall fun late hst => hown ⟨late, hst⟩
        · rw [hstep]
          exact ⟨visits, reached, _, h.sweeps, hhanded, .abandoned _⟩
        · have hmem : (i, Command.flush reached.cluster.nextTicket) ∈ queuedIn f.moves := by
            rw [h.sweeps.queued]
            simp
          have hwants : f.system.wants reached.cluster.nextTicket = true :=
            List.any_eq_true.mpr ⟨_, List.mem_of_getElem? hcall,
              by simp [Progress.tickets, Cluster.Waiting.tickets]⟩
          have hbusy : f.system.underway ≠ [] := fun hidle => by simp [hidle] at hcall
          rw [hstep]
          refine ⟨visits, reached, _, h.sweeps, hhanded, .waits k i rest hcall' hroom ?_ ?_ hseen⟩
          · rw [hnodes, hpositions]
          · exact hawaited.step (h.handed i _ hmem) hwants hbusy
  | returned hnodes hresult hlast =>
      rw [Followed.step_of_ended (by simp [hstanding])]
      refine ⟨visits, reached, _, h.sweeps, hhanded, ?_⟩
      rw [hstanding]
      exact .returned (hnodes.trans hpositions.symm) (f.system.returned_step st hresult) hlast
  | abandoned _ =>
      rw [Followed.step_of_ended (by simp [hstanding])]
      refine ⟨visits, reached, waiting, h.sweeps, hhanded, ?_⟩
      rw [hstanding]
      exact .abandoned _

end Steps

end CacheService.Remote
