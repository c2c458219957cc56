import Mathlib.Algebra.BigOperators.Group.List.Basic
import CacheService.Proofs.Remote.Interleaving

/-!
# CacheService.Proofs.Remote.Books

The books of the writes of a client. A write that was accepted is in exactly one of
three places, which are kept by different parties: a server has acknowledged it to a
worker, it is counted as dropped, by the client or by its node, or it is counted as
pending by its node. Every step of a call or a worker moves a write from one place to
another or leaves it where it is, so the sum is the same at every point of every
interleaving.

* `Node.Booked` and `Cluster.Booked` — as many writes are pending as are queued or in
  hand. Steps of workers keep this (`Node.Booked.advance`), and so do calls that do not
  write (`Cluster.Booked.asks`).
* `Cluster.Issued` — what becomes of a write as it is issued, and `Cluster.Shows` where
  the books have it then.
* `System.Balanced` — the sum over the three places, which every step keeps
  (`Balanced.step`).
-/

namespace CacheService.Remote

namespace Node

/-- The books of a node are in order: as long as its worker has not ended, as many
writes are pending as are in its `backlog`. -/
structure Booked (n : Node) : Prop where
  unstarted : n.isStarted = false → n.queue = []
  pending : n.isGone = false → n.pendingWrites = n.backlog.countP Command.isWrite

/-- The writes that a node has taken and that are not stored. -/
def unstored (n : Node) : Nat := n.pendingWrites + n.droppedWrites

variable {n n' : Node}

/-- A new node is `Booked`. -/
theorem booked_create (settings : RemoteSettings) (address : Address) :
    (create settings address).Booked := ⟨fun _ => rfl, fun _ => rfl⟩

/-- Queueing keeps a node `Booked` if the command has been booked. -/
theorem booked_submit {c : Command} (h : n.submit c = .ok n')
    (hn : n.isStarted = false → n.queue = [])
    (hpending : n.isGone = false →
      n.pendingWrites = n.backlog.countP Command.isWrite + [c].countP Command.isWrite) :
    n'.Booked := by
  have hbacklog := backlog_submit hn h
  obtain ⟨-, hgone, rfl⟩ := submit_eq hn h
  refine ⟨fun hs => ?_, fun _ => ?_⟩
  · cases hw : n.worker <;> simp_all [isStarted]
  · rw [hbacklog, List.countP_append]
    exact hpending hgone

/-- What calls that do not write make of a node (`Asked`) is `Booked` again. -/
theorem Booked.asked (h : n.Booked) (hasked : n.Asked n') : n'.Booked := by
  refine hasked.preserves (fun m m' c hreads hqueued hm => ?_) (fun m hm => ?_) (fun m hm => ?_) h
  · refine booked_submit hqueued hm.unstarted fun hgone => ?_
    simpa [hreads] using hm.pending hgone
  · exact ⟨hm.unstarted, hm.pending⟩
  · exact ⟨fun _ => rfl, fun hgone => absurd hgone (by simp [abort, isGone])⟩

/-- `Asked` neither stores nor takes a write. -/
theorem unstored_asked (hasked : n.Asked n') : n'.unstored = n.unstored := by
  have hkeeps (m : Node) (hm : n.unstored = m.unstored) : n.unstored = m.unstored := hm
  refine (hasked.preserves (fun m m' c _ hqueued hm => ?_) hkeeps hkeeps rfl).symm
  obtain ⟨hpending, hdropped⟩ := books_submit hqueued
  rw [hm, unstored, unstored, hpending, hdropped]

/-- A write that is queued is pending. -/
theorem Booked.submitWrite (h : n.Booked) {key : String} {value : ByteArray} {expiration : Int}
    (hqueued : n.submitWrite key value expiration = .ok n') :
    n'.Booked ∧ n'.pendingWrites = n.pendingWrites + 1 ∧ n'.droppedWrites = n.droppedWrites := by
  rw [submitWrite_eq] at hqueued
  have hpending (hgone : n.isGone = false) :
      n.pendingWrites + 1 = n.backlog.countP Command.isWrite
        + [Command.set key value expiration].countP Command.isWrite :=
    congrArg (· + 1) (h.pending hgone)
  exact ⟨booked_submit hqueued h.unstarted hpending, books_submit hqueued⟩

/-- A write is taken off the pending ones when its acknowledgement is read or when it is
counted as dropped (`Moves`). -/
theorem Booked.moves (h : n.Booked) (hstarted : n.isStarted = true) (hgone : n.isGone = false)
    {acknowledged : Nat} {progress : Node × List Event} (hmoves : n.Moves acknowledged progress) :
    progress.1.Booked ∧ acknowledged + progress.1.unstored = n.unstored := by
  have hpending := h.pending hgone
  have hbooked {n' : Node} (hkept : n.Kept n')
      (hn : n'.pendingWrites = n'.backlog.countP Command.isWrite) : n'.Booked :=
    ⟨fun hs => absurd (hkept.started.trans hstarted) (by simp [hs]), fun _ => hn⟩
  cases hmoves with
  | goesOn n' hkept hbacklog hp hd =>
      exact ⟨hbooked hkept (by rw [hp, hpending, hbacklog]), by simp [unstored, hp, hd]⟩
  | passesOver n' key ticket hkept hbacklog hp hd =>
      rw [hbacklog] at hpending
      exact ⟨hbooked hkept (hp.trans hpending), by simp [unstored, hp, hd]⟩
  | answers n' c ticket finding hkept hasked hbacklog hp hd =>
      have hread : c.isWrite = false := by cases c <;> simp_all [Command.ticket?, Command.isWrite]
      rw [hbacklog, List.countP_cons_of_neg (by simp [hread])] at hpending
      exact ⟨hbooked hkept (hp.trans hpending), by simp [unstored, hp, hd]⟩
  | stores n' key value expiration hkept hbacklog hp hd =>
      rw [hbacklog, List.countP_cons_of_pos rfl] at hpending
      have hn : n'.pendingWrites = n'.backlog.countP Command.isWrite := by omega
      refine ⟨hbooked hkept hn, ?_⟩
      simp only [unstored]
      omega
  | drops n' key value expiration e hkept hbacklog hp hd =>
      rw [hbacklog, List.countP_cons_of_pos rfl] at hpending
      have hn : n'.pendingWrites = n'.backlog.countP Command.isWrite := by omega
      refine ⟨hbooked hkept hn, ?_⟩
      simp only [unstored]
      omega

/-- **One step of a worker** keeps its node `Booked`. -/
theorem Booked.advance (h : n.Booked) (wanted : Ticket → Bool) (step : WorkerStep) :
    (n.advance wanted step).1.Booked ∧
      (n.heard step).countP acknowledges + (n.advance wanted step).1.unstored = n.unstored := by
  by_cases hidle : n.isStarted = false ∨ n.isGone = true
  · obtain ⟨hadvance, hheard⟩ := advance_of_idle hidle wanted step
    rw [hadvance, hheard]
    exact ⟨h, Nat.zero_add _⟩
  · obtain ⟨hstarted, hgone⟩ : n.isStarted = true ∧ n.isGone = false := by simpa using hidle
    exact h.moves hstarted hgone (advance_moves n wanted step)

end Node

/-! ## Clients -/

namespace Cluster

/-- The accepted writes that are not stored: those that the client has dropped and those
on the books of its nodes. -/
def unstored (c : Cluster) : Nat := c.droppedWrites + (c.nodes.map Node.unstored).sum

variable {c c' : Cluster}

/-- A total that is counted up is a `sum`. -/
theorem foldl_add_eq_sum (f : Node → Nat) (nodes : List Node) :
    nodes.foldl (fun sum n => sum + f n) 0 = (nodes.map f).sum := by
  rw [List.sum_eq_foldl, List.foldl_map]

/-- `Cluster.unstored` is what is reported as dropped and as pending. -/
theorem unstored_eq (c : Cluster) : c.unstored = c.stats.droppedWrites + c.pendingWrites := by
  have hsum : (c.nodes.map Node.unstored).sum =
      (c.nodes.map Node.pendingWrites).sum + (c.nodes.map Node.droppedWrites).sum := by
    induction c.nodes with
    | nil => rfl
    | cons n nodes ih =>
        simp only [List.map_cons, List.sum_cons, ih, Node.unstored]
        omega
  simp only [unstored, stats, pendingWrites, foldl_add_eq_sum Node.pendingWrites,
    foldl_add_eq_sum Node.droppedWrites, hsum]
  omega

/-- The nodes of a client are all `Node.Booked`, and there is one. -/
structure Booked (c : Cluster) : Prop where
  nonempty : c.nodes ≠ []
  nodes : ∀ n ∈ c.nodes, n.Booked

/-- A new client is `Booked`, with nothing on its books. -/
theorem booked_create {settings : RemoteSettings} (h : create settings = .ok c) :
    c.Booked ∧ c.unstored = 0 := by
  unfold create at h
  split at h
  · contradiction
  · rename_i hnodes
    obtain rfl := Except.ok.inj h
    refine ⟨⟨by simpa using hnodes, ?_⟩, ?_⟩
    · intro n hn
      obtain ⟨address, -, rfl⟩ := List.mem_map.mp hn
      exact Node.booked_create settings address
    · simp only [unstored, List.map_map, Nat.zero_add]
      exact List.sum_eq_zero fun k hk => by
        obtain ⟨address, -, rfl⟩ := List.mem_map.mp hk
        rfl

/-- A new client is what `create` makes of its settings. -/
theorem eq_of_create {settings : RemoteSettings} (h : create settings = .ok c) :
    c = { timeout := settings.timeout, nodes := settings.nodes.map (Node.create settings) } := by
  unfold create at h
  split at h
  · contradiction
  · exact (Except.ok.inj h).symm

/-- Every key has its node from the first, a new one. -/
theorem getElem?_nodeOf_create {settings : RemoteSettings} (h : create settings = .ok c)
    (key : String) :
    ∃ address, c.nodes[c.nodeOf key]? = some (Node.create settings address) := by
  have hlt : c.nodeOf key < c.nodes.length :=
    nodeIndex_lt key.toUTF8.toList (List.length_pos_iff.mpr (booked_create h).1.nonempty)
  have hnodes : c.nodes = settings.nodes.map (Node.create settings) := by rw [eq_of_create h]
  have hmem : c.nodes[c.nodeOf key] ∈ settings.nodes.map (Node.create settings) :=
    hnodes ▸ List.getElem_mem hlt
  obtain ⟨address, -, hnew⟩ := List.mem_map.mp hmem
  exact ⟨address, by rw [List.getElem?_eq_getElem hlt, hnew]⟩

/-- Calls that do not write (`Asks`) leave the books alone. -/
theorem Booked.asks (h : c.Booked) (hasks : c.Asks c') : c'.Booked ∧ c'.unstored = c.unstored := by
  have hlength := hasks.nodes.length_eq
  have hunstored : c.nodes.map Node.unstored = c'.nodes.map Node.unstored := by
    rw [← List.forall₂_eq_eq_eq, List.forall₂_map_left_iff, List.forall₂_map_right_iff]
    exact hasks.nodes.imp fun _ _ hasked => (Node.unstored_asked hasked).symm
  refine ⟨⟨fun hempty => h.nonempty ?_, fun n' hn' => ?_⟩, ?_⟩
  · rw [hempty] at hlength
    exact List.length_eq_zero_iff.mp hlength
  · obtain ⟨i, hi, rfl⟩ := List.getElem_of_mem hn'
    have hi' : i < c.nodes.length := hlength ▸ hi
    exact (h.nodes _ (List.getElem_mem hi')).asked (hasks.nodes.get hi' hi)
  · rw [unstored, unstored, hasks.droppedWrites, hunstored]

/-- `Booked` when one node changes. -/
theorem Booked.set (h : c.Booked) {i : Nat} {n n' : Node} (hi : c.nodes[i]? = some n)
    (hn : n'.Booked) :
    { c with nodes := c.nodes.set i n' }.Booked ∧
      { c with nodes := c.nodes.set i n' }.unstored + n.unstored = c.unstored + n'.unstored := by
  refine ⟨⟨by simpa using h.nonempty, fun m hm => ?_⟩, ?_⟩
  · obtain hm | rfl := List.mem_or_eq_of_mem_set hm
    · exact h.nodes m hm
    · exact hn
  · have hsum := sum_map_set Node.unstored hi n'
    simp only [unstored]
    omega

/-! ### Issuing a write -/

/-- A command that is refused, though nothing is stopped, has met a worker that has
ended or a full queue. -/
theorem submit_error {n : Node} {c : Command} {e : CacheError} (h : n.submit c = .error e)
    (he : e.isIllegalState = false) : n.isGone = true ∨ n.capacity ≤ n.queue.length := by
  unfold Node.submit at h
  split at h
  · obtain rfl := Except.error.inj h
    simp [CacheError.isIllegalState] at he
  · split at h
    · rename_i hw
      exact .inl (by simp [Node.isGone, hw])
    · contradiction
    · split at h
      · exact .inr ‹_›
      · contradiction

/-- What becomes of a write as it is issued: it is queued, it is lost because of its key
or of its node, or it is refused and leaves no trace. -/
inductive Issued (c : Cluster) (key : String) : Result → Cluster → Prop
  | queued (i : Nat) (n n' : Node) (value : ByteArray) (expiration : Int)
      (node : c.nodes[i]? = some n) (taken : n.submitWrite key value expiration = .ok n') :
      Issued c key .done { c with nodes := c.nodes.set i n' }
  | lost (cause : (keyFault? key).isSome = true ∨ ∃ n, c.nodes[c.nodeOf key]? = some n ∧
        (n.isGone = true ∨ n.capacity ≤ n.queue.length)) :
      Issued c key .done { c with droppedWrites := c.droppedWrites + 1 }
  | refused (e : CacheError) (stopped : e.isIllegalState = true) : Issued c key (.error e) c

/-- A write that starts returns at once, and is `Issued`. -/
theorem issued_start (h : c.Booked) (unixSeconds : Int) (key : String) (value : ByteArray)
    (ttl : UInt32) :
    ∃ result, (c.start unixSeconds (.set key value ttl)).next = .inl result ∧
      c.Issued key result (c.start unixSeconds (.set key value ttl)).cluster := by
  unfold start
  dsimp only
  split
  · exact ⟨_, rfl, .refused _ rfl⟩
  · unfold startRunning startSet validateKey
    dsimp only
    cases hkey : keyFault? key with
    | some fault => exact ⟨.done, rfl, .lost (.inl (by simp [hkey]))⟩
    | none =>
        have hnode : c.nodeOf key < c.nodes.length :=
          nodeIndex_lt _ (List.length_pos_iff.mpr h.nonempty)
        have hn := List.getElem?_eq_getElem hnode
        rw [hn]
        dsimp only
        cases htaken :
          c.nodes[c.nodeOf key].submitWrite key value (wireExpiration ttl unixSeconds) with
        | ok n' => exact ⟨.done, rfl, .queued _ _ n' value _ hn htaken⟩
        | error e =>
            dsimp only
            split
            · exact ⟨.error e, rfl, .refused e ‹_›⟩
            · rename_i he
              rw [Node.submitWrite_eq] at htaken
              have hrefused := submit_error htaken (by simpa using he)
              exact ⟨.done, rfl, .lost (.inr ⟨_, hn, hrefused⟩)⟩

/-- Where the books show a write that has been issued and has returned: it is pending;
it is dropped, because its key is invalid or its node cannot take it; or it is an error
of something stopped, and the books do not know it. -/
def Shows (c c' : Cluster) (key : String) : Result → Prop
  | .done =>
    (c'.pendingWrites = c.pendingWrites + 1 ∧ c'.stats.droppedWrites = c.stats.droppedWrites) ∨
    (c'.pendingWrites = c.pendingWrites ∧ c'.stats.droppedWrites = c.stats.droppedWrites + 1 ∧
      ((keyFault? key).isSome = true ∨ ∃ n, c.nodes[c.nodeOf key]? = some n ∧
        (n.isGone = true ∨ n.capacity ≤ n.queue.length)))
  | .error e =>
    e.isIllegalState = true ∧ c'.pendingWrites = c.pendingWrites ∧
      c'.stats.droppedWrites = c.stats.droppedWrites
  | .value _ | .found _ => False

/-- What `Issued` makes of a client, `Shows` reads off its books. -/
theorem Issued.shows {key : String} {result : Result} (h : c.Booked)
    (hissued : c.Issued key result c') : c'.Booked ∧ c.Shows c' key result := by
  cases hissued with
  | queued i n n' value expiration hn htaken =>
      have hnode := h.nodes n (List.mem_of_getElem? hn)
      obtain ⟨hbooked, hpending, hdropped⟩ := hnode.submitWrite htaken
      have hpendingSum := sum_map_set Node.pendingWrites hn n'
      have hdroppedSum := sum_map_set Node.droppedWrites hn n'
      refine ⟨(h.set hn hbooked).1, .inl ?_⟩
      simp only [stats, pendingWrites, foldl_add_eq_sum Node.pendingWrites,
        foldl_add_eq_sum Node.droppedWrites]
      omega
  | lost cause =>
      exact ⟨⟨h.nonempty, h.nodes⟩, .inr ⟨rfl, Nat.add_right_comm _ _ _, cause⟩⟩
  | refused e hstopped => exact ⟨h, hstopped, rfl, rfl⟩

end Cluster

/-! ## Systems -/

namespace System

open Cluster (Call Result Stage)

/-- Whether a call is a write that returned without an error. -/
def accepted : Call × Result → Bool
  | (.set .., .done) => true
  | _ => false

/-- The books balance: accepted writes are those acknowledged and those `unstored`.
Writes return at once. -/
structure Balanced (s : System) : Prop where
  booked : s.cluster.Booked
  underway : ∀ p ∈ s.underway, ∀ key value ttl, p.1 ≠ .set key value ttl
  balance : s.returned.countP accepted = s.answered.countP acknowledges + s.cluster.unstored

variable {s : System}

/-- A step of a call that is not a write leaves `Balanced` as it is. -/
theorem Balanced.turned (h : s.Balanced) {call : Call} {stage : Stage}
    (hcall : ∀ key value ttl, call ≠ .set key value ttl) (hasks : s.cluster.Asks stage.1) :
    (s.turned call stage).Balanced := by
  obtain ⟨hbooked, hunstored⟩ := h.booked.asks hasks
  have hbalance := h.balance
  rw [← hunstored] at hbalance
  unfold System.turned
  cases stage.2 with
  | inl result =>
      refine ⟨hbooked, h.underway, ?_⟩
      have hnone : [(call, result)].countP accepted = 0 := by
        cases call <;> simp_all [accepted]
      simpa [hnone] using hbalance
  | inr progress =>
      refine ⟨hbooked, fun p hp => ?_, hbalance⟩
      obtain hp | hp := List.mem_append.mp hp
      · exact h.underway p hp
      · obtain rfl := List.mem_singleton.mp hp
        exact hcall

/-- A write that is issued returns at once, and the books show it. -/
theorem Balanced.issue (h : s.Balanced) (unixSeconds : Int) (key : String) (value : ByteArray)
    (ttl : UInt32) :
    ∃ result c', s.step (.start unixSeconds (.set key value ttl)) =
        { s with cluster := c', returned := s.returned ++ [(.set key value ttl, result)] } ∧
      c'.Booked ∧ s.cluster.Shows c' key result := by
  obtain ⟨result, hnext, hissued⟩ :=
    Cluster.issued_start (h.booked.asks s.asks_fresh).1 unixSeconds key value ttl
  have hfresh : s.fresh.Shows = s.cluster.Shows := by
    unfold fresh
    split <;> rfl
  refine ⟨result, (s.fresh.start unixSeconds (.set key value ttl)).cluster, ?_, ?_⟩
  · simp only [System.step, Cluster.begin, Cluster.Turn.stage, System.turned, hnext,
      Sum.map_inl, id]
  · rw [← hfresh]
    exact hissued.shows (h.booked.asks s.asks_fresh).1

/-- A write keeps a system `Balanced`: it is booked as it returns, and as what it returns. -/
theorem Balanced.step_set (h : s.Balanced) (unixSeconds : Int) (key : String)
    (value : ByteArray) (ttl : UInt32) :
    (s.step (.start unixSeconds (.set key value ttl))).Balanced := by
  obtain ⟨result, c', hstep, hbooked, hshows⟩ := h.issue unixSeconds key value ttl
  have hbalance := h.balance
  rw [Cluster.unstored_eq] at hbalance
  rw [hstep]
  refine ⟨hbooked, h.underway, ?_⟩
  rw [Cluster.unstored_eq, List.countP_append]
  cases result with
  | done =>
      have haccepted : [(Call.set key value ttl, Result.done)].countP accepted = 1 := rfl
      obtain ⟨hpending, hdropped⟩ | ⟨hpending, hdropped, -⟩ := hshows <;>
        simp only [hpending, hdropped] <;> omega
  | error e =>
      have hrefused : [(Call.set key value ttl, Result.error e)].countP accepted = 0 := rfl
      obtain ⟨-, hpending, hdropped⟩ := hshows
      simp only [hpending, hdropped]
      omega
  | value _ => exact hshows.elim
  | found _ => exact hshows.elim

/-- A worker keeps a system `Balanced`: a write that it ends is acknowledged or dropped. -/
theorem Balanced.step_worker (h : s.Balanced) (i : Nat) (step : WorkerStep) :
    (s.step (.worker i step)).Balanced := by
  cases hn : s.cluster.nodes[i]? with
  | none => exact (step_worker_none hn step).symm ▸ h
  | some n =>
      rw [step_worker_some hn, Cluster.worked_eq]
      obtain ⟨hnode, hmoved⟩ :=
        (h.booked.nodes n (List.mem_of_getElem? hn)).advance s.wants step
      obtain ⟨hcluster, hset⟩ := h.booked.set hn hnode
      refine ⟨⟨hcluster.nonempty, hcluster.nodes⟩, h.underway, ?_⟩
      have hbalance := h.balance
      rw [List.countP_append]
      simp only [Cluster.unstored] at *
      omega

/-- **One step** keeps a system `Balanced`. -/
theorem Balanced.step (h : s.Balanced) (st : Step) : (s.step st).Balanced := by
  cases st with
  | start unixSeconds call =>
      -- Only a write is booked as it starts; all other calls leave the books alone.
      by_cases hcall : ∀ key value ttl, call ≠ .set key value ttl
      · exact h.turned hcall ((asks_fresh s).trans (Cluster.asks_begin _ unixSeconds hcall))
      · push Not at hcall
        obtain ⟨key, value, ttl, rfl⟩ := hcall
        exact h.step_set unixSeconds key value ttl
  | resume position late =>
      cases hw : s.underway[position]? with
      | none => exact (step_resume_none hw late).symm ▸ h
      | some p =>
          rw [step_resume_some hw]
          have hcall := h.underway p (List.mem_of_getElem? hw)
          have hrest : Balanced { s with underway := s.underway.eraseIdx position } :=
            ⟨h.booked, fun p hp => h.underway p (List.mem_of_mem_eraseIdx hp), h.balance⟩
          exact hrest.turned hcall (Cluster.asks_goOn s.cluster late p.2)
  | abandon position =>
      exact ⟨h.booked, fun p hp => h.underway p (List.mem_of_mem_eraseIdx hp), h.balance⟩
  | worker i step => exact h.step_worker i step
  | close i =>
      have hasks : s.cluster.Asks (s.step (.close i)).cluster :=
        ⟨rfl, Cluster.forall₂_modify (fun _ => .refl) (fun n => .close n .refl) _ i⟩
      obtain ⟨hbooked, hunstored⟩ := h.booked.asks hasks
      exact ⟨hbooked, h.underway, hunstored ▸ h.balance⟩

/-- **No accepted write goes missing.** At every point of every interleaving of
calls, workers and network, the writes that have returned without an error are
those whose acknowledgement a worker has read, those reported as dropped and
those reported as pending. The next write returns at once and shows in one of
the three, or is an error of something stopped and shows in none. -/
theorem writes_accounted {settings : RemoteSettings} {c : Cluster}
    (hc : Cluster.create settings = .ok c) (steps : List Step) :
    let s := System.after { cluster := c } steps
    s.returned.countP accepted =
        s.answered.countP acknowledges + s.cluster.stats.droppedWrites + s.cluster.pendingWrites ∧
      ∀ unixSeconds key value ttl, ∃ result c',
        s.step (.start unixSeconds (.set key value ttl)) =
            { s with cluster := c', returned := s.returned ++ [(.set key value ttl, result)] } ∧
          s.cluster.Shows c' key result := by
  intro s
  obtain ⟨hbooked, hunstored⟩ := Cluster.booked_create hc
  have hstart : Balanced { cluster := c } := ⟨hbooked, by simp, by simp [hunstored]⟩
  have hs : s.Balanced := after_induction (fun _ st h => h.step st) hstart steps
  refine ⟨?_, fun unixSeconds key value ttl => ?_⟩
  · rw [hs.balance, Cluster.unstored_eq, Nat.add_assoc]
  · obtain ⟨result, c', hstep, -, hshows⟩ := hs.issue unixSeconds key value ttl
    exact ⟨result, c', hstep, hshows⟩

/-- A node with room for one command. Of the writes that returned, one was
stored, one met a full queue, one has no key, one failed in its exchange, and
one is still in the queue when a stop gives the worker up. -/
theorem writes_accounted_aborted :
    let settings : RemoteSettings := ⟨[⟨"a", 1⟩], .ofSeconds 1, 1, none, none⟩
    let c : Cluster :=
      { timeout := settings.timeout, nodes := [Node.create settings ⟨"a", 1⟩] }
    let write (key : String) : Step := .start 0 (.set key ⟨#[7]⟩ 0)
    let steps : List Step :=
      [write "k", write "l", write "", .worker 0 .take, .worker 0 (.dial .accepted), write "m",
        .worker 0 (.exchange (.status .stored)), .worker 0 .take, .worker 0 (.exchange .lost),
        write "n", .start 0 .stop, write "o", .resume 0 true]
    let s := System.after { cluster := c } steps
    s.returned.countP accepted = 5 ∧ s.answered.countP acknowledges = 1 ∧
      s.cluster.stats.droppedWrites = 3 ∧ s.cluster.pendingWrites = 1 := by
  intro settings c write steps s
  have hacknowledged : s.answered.countP acknowledges = 1 := by decide +kernel
  have hdropped : s.cluster.stats.droppedWrites = 3 := by decide +kernel
  have hpending : s.cluster.pendingWrites = 1 := by decide +kernel
  have hc : Cluster.create settings = .ok c := rfl
  have hbalance := (writes_accounted hc steps).1
  refine ⟨hbalance.trans ?_, hacknowledged, hdropped, hpending⟩
  rw [hacknowledged, hdropped, hpending]

end System

end CacheService.Remote
