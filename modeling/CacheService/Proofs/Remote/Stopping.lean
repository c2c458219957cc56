import CacheService.Proofs.Remote.Books
import CacheService.Proofs.Remote.Changes
import CacheService.Remote.Schedule
import CacheService.Remote.Server

/-!
# CacheService.Proofs.Remote.Stopping

What a stop leaves behind. A stop closes every node and waits for the workers,
but not for ever: a worker whose time is up is given up (`Node.abort`) with
whatever is queued on it. The writes among that never reach their server, yet
nothing counts them as dropped: they stay pending for good. Every other accepted
write has been acknowledged or is counted as dropped.

* `Node.stranded` and `Node.waiting` — the pending writes of a node whose worker
  has ended and of one whose worker has not; `Changes.stranded` says that a stop
  strands the writes that it gives up (`System.abandoned`) and no other step
  strands any;
* `Stopping` — a stop on its way has closed every node, and each worker has ended
  or is still to be waited for (`Cluster.Closing`); `Stopping.step` and
  `Stopping.after` are its step and its run;
* `stop_settles` — what holds when a stop has returned;
* `stop_before_silent_server` — writes that a stop has left in limbo.
-/

namespace CacheService.Remote

namespace Node

/-- The writes that are pending on a worker that has ended. They never run. -/
def stranded (n : Node) : Nat := if n.isGone then n.pendingWrites else 0

variable {n n' : Node} {c : Command}

/-- A write that is pending is `stranded` or `waiting`. -/
theorem Booked.pending_eq (h : n.Booked) : n.pendingWrites = n.stranded + n.waiting := by
  cases hgone : n.isGone with
  | true => simp [stranded, waiting, hgone]
  | false => simp [stranded, waiting, hgone, h.pending hgone]

/-- No write is `waiting` for a worker that has not started, or has ended. -/
theorem Booked.waiting_of_ended (h : n.Booked) (hends : n.isStarted = true → n.isGone = true) :
    n.waiting = 0 := by
  cases hgone : n.isGone with
  | true => simp [waiting, hgone]
  | false =>
      have hunstarted : n.isStarted = false := by
        by_contra hstarted
        simp [hends (by simpa using hstarted)] at hgone
      have hidle : n.inHand = none := by
        cases hworker : n.worker <;> simp_all [isStarted, inHand]
      simp [waiting, hgone, backlog_of_idle hidle, h.unstarted hunstarted]

theorem stranded_queued {first bound : Ticket} (h : n.Queued first bound n') :
    n'.stranded = n.stranded := by
  induction h with
  | refl => rfl
  | submit m m' c ticket _ _ _ hqueued ih =>
      obtain ⟨hm, hm'⟩ := isGone_submit hqueued
      rw [← ih]
      simp [stranded, hm, hm']

theorem stranded_submitWrite {key : String} {value : ByteArray} {expiration : Int}
    (h : n.submitWrite key value expiration = .ok n') : n'.stranded = n.stranded := by
  rw [submitWrite_eq] at h
  obtain ⟨hn, hn'⟩ := isGone_submit h
  have hgone : n.isGone = false := hn
  simp [stranded, hgone, hn']

/-- A step of a worker strands no write. -/
theorem stranded_advance (h : n.Booked) (wanted : Ticket → Bool) (step : WorkerStep) :
    (n.advance wanted step).1.stranded = n.stranded := by
  cases hgone : n.isGone with
  | true => rw [(advance_of_idle (.inr hgone) wanted step).1]
  | false =>
      obtain hruns | ⟨-, hempty, hpending⟩ := (n.advances_advance wanted step).runs hgone
      · simp [stranded, hgone, hruns]
      · have hnone : n.pendingWrites = 0 := by simp [h.pending hgone, hempty]
        simp [stranded, hgone, hpending, hnone]

/-- A closed node whose worker has ended or is still `excused` from it. -/
def EndsBut (excused : Prop) (n : Node) : Prop :=
  n.closed = true ∧ (n.isStarted = true → n.isGone = true ∨ excused)

/-- `EndsBut` goes through calls that do not write. -/
theorem EndsBut.asked {excused : Prop} (h : n.EndsBut excused) (hasked : n.Asked n') :
    n'.EndsBut excused := by
  refine hasked.preserves (fun m m' c _ hqueued hm => ?_) (fun m hm => ⟨rfl, hm.2⟩)
    (fun m hm => ⟨hm.1, fun _ => .inl rfl⟩) h
  unfold submit at hqueued
  simp [hm.1] at hqueued

theorem EndsBut.submitWrite {excused : Prop} (h : n.EndsBut excused) {key : String}
    {value : ByteArray} {expiration : Int} (hqueued : n.submitWrite key value expiration = .ok n') :
    n'.EndsBut excused := by
  rw [submitWrite_eq] at hqueued
  unfold submit at hqueued
  simp [h.1] at hqueued

/-- `EndsBut` goes through steps of the worker. -/
theorem EndsBut.advance {excused : Prop} (h : n.EndsBut excused) (wanted : Ticket → Bool)
    (step : WorkerStep) : (n.advance wanted step).1.EndsBut excused := by
  have hkept := (advance_moves n wanted step).kept
  refine ⟨hkept.closed.trans h.1, fun hstarted => ?_⟩
  rw [hkept.started] at hstarted
  cases hgone : n.isGone with
  | true =>
      rw [(advance_of_idle (.inr hgone) wanted step).1]
      exact .inl hgone
  | false => exact .inr ((h.2 hstarted).resolve_left (by simp [hgone]))

theorem closed_queued {first bound : Ticket} (h : n.Queued first bound n') :
    n'.closed = n.closed := by
  induction h with
  | refl => rfl
  | submit m m' c ticket _ _ _ hqueued ih =>
      rw [← ih]
      unfold submit at hqueued
      grind

theorem closed_submitWrite {key : String} {value : ByteArray} {expiration : Int}
    (h : n.submitWrite key value expiration = .ok n') : n'.closed = n.closed := by
  rw [submitWrite_eq] at h
  unfold submit at h
  grind

end Node

namespace Cluster

/-- The writes that are pending on workers that have ended, by `Node.stranded`. -/
def stranded (c : Cluster) : Nat := (c.nodes.map Node.stranded).sum

/-- The writes that workers have still to run, by `Node.waiting`. -/
def waiting (c : Cluster) : Nat := (c.nodes.map Node.waiting).sum

variable {c c' : Cluster}

/-- What a client reports as pending is `stranded` or `waiting`. -/
theorem Booked.pending_eq (h : c.Booked) : c.pendingWrites = c.stranded + c.waiting := by
  have hnodes : ∀ nodes : List Node, (∀ n ∈ nodes, n.Booked) → (nodes.map Node.pendingWrites).sum =
      (nodes.map Node.stranded).sum + (nodes.map Node.waiting).sum := by
    intro nodes hbooked
    induction nodes with
    | nil => rfl
    | cons n nodes ih =>
        have hn := (hbooked n (by simp)).pending_eq
        have hrest := ih fun m hm => hbooked m (by simp [hm])
        simp only [List.map_cons, List.sum_cons]
        omega
  rw [pendingWrites, foldl_add_eq_sum]
  exact hnodes c.nodes h.nodes

theorem stranded_of_nodes
    (h : List.Forall₂ (fun n n' : Node => n'.stranded = n.stranded) c.nodes c'.nodes) :
    c'.stranded = c.stranded := by
  have hsame : c.nodes.map Node.stranded = c'.nodes.map Node.stranded := by
    rw [← List.forall₂_eq_eq_eq, List.forall₂_map_left_iff, List.forall₂_map_right_iff]
    exact h.imp fun _ _ hn => hn.symm
  rw [stranded, stranded, hsame]

/-- Calls that neither write nor stop strand no write. -/
theorem stranded_queues (h : c.Queues c') : c'.stranded = c.stranded :=
  stranded_of_nodes (h.nodes.imp fun _ _ => Node.stranded_queued)

/-- One node changes, and what is `stranded` changes by as much. -/
theorem stranded_set {i k : Nat} {n n' : Node} (hn : c.nodes[i]? = some n)
    (hnodes : c'.nodes = c.nodes.set i n') (hnode : n'.stranded = n.stranded + k) :
    c'.stranded = c.stranded + k := by
  have hsum := sum_map_set Node.stranded hn n'
  rw [stranded, stranded, hnodes]
  omega

theorem stranded_create {settings : RemoteSettings} (h : create settings = .ok c) :
    c.stranded = 0 := by
  unfold create at h
  split at h
  · contradiction
  · obtain rfl := Except.ok.inj h
    rw [stranded, List.map_map]
    exact List.sum_eq_zero fun k hk => by
      obtain ⟨address, -, rfl⟩ := List.mem_map.mp hk
      rfl

/-- A stop is on its way: every node is closed, and its worker has ended, unless it is
still to be waited for (in `left`) or was closed early, which no stop waits for. -/
structure Closing (early : Nat → Prop) (left : List Nat) (c : Cluster) : Prop where
  stopped : c.stopped = true
  nodes : ∀ (i : Nat) (n : Node), c.nodes[i]? = some n → n.EndsBut (early i ∨ i ∈ left)

variable {early : Nat → Prop} {left : List Nat}

/-- `Closing` for other nodes to be waited for. -/
theorem Closing.imp {left' : List Nat} (h : c.Closing early left)
    (hleft : ∀ (i : Nat) (n : Node), c.nodes[i]? = some n → i ∈ left →
      n.isGone = true ∨ i ∈ left') :
    c.Closing early left' := by
  refine ⟨h.stopped, fun i n hn => ⟨(h.nodes i n hn).1, fun hstarted => ?_⟩⟩
  obtain hgone | hearly | hi := (h.nodes i n hn).2 hstarted
  · exact .inl hgone
  · exact .inr (.inl hearly)
  · exact (hleft i n hn hi).imp_right .inr

/-- `awaitEnds` goes on to the first worker that has not ended, and returns when all
have. -/
theorem closing_awaitEnds (h : c.Closing early left) :
    (c.awaitEnds left).next = .inl .done ∧ c.Closing early [] ∨
      ∃ i rest, (c.awaitEnds left).next = .inr (.stop i rest) ∧ c.Closing early (i :: rest) := by
  induction left with
  | nil => exact .inl ⟨rfl, h⟩
  | cons i rest ih =>
      unfold awaitEnds
      split
      · rename_i hgone
        refine ih (h.imp fun j n hn hj => ?_)
        obtain rfl | hj := List.mem_cons.mp hj
        · exact .inl (by simpa [hn] using hgone)
        · exact .inr hj
      · exact .inr ⟨i, rest, rfl, h⟩

end Cluster

namespace System

open Cluster (Call Progress Result Stage Waiting)

variable {s : System} {c : Cluster}

theorem Base.stranded (h : s.Base c) : c.stranded = s.cluster.stranded := by
  rw [Cluster.stranded, Cluster.stranded, h.nodes]

/-- A stop strands the writes that it gives up, and nothing else strands any. -/
theorem Changes.stranded {st : Step} {given : Nat} {c' : Cluster} (h : s.Changes st given c')
    (hbooked : s.cluster.Booked) : c'.stranded = s.cluster.stranded + given := by
  cases h with
  | queues _ c _ base hasked => rw [Cluster.stranded_queues hasked, base.stranded, Nat.add_zero]
  | writes _ c i n n' key value expiration base running hn htaken =>
      rw [← base.stranded]
      exact Cluster.stranded_set hn rfl (Node.stranded_submitWrite htaken)
  | loses _ c base => exact base.stranded
  | stops unixSeconds c base running =>
      refine (Cluster.stranded_of_nodes ?_).trans base.stranded
      exact List.forall₂_map_right_iff.mpr (List.forall₂_same.mpr fun _ _ => rfl)
  | aborts _ i n hn hruns =>
      have hpending := (hbooked.nodes n (List.mem_of_getElem? hn)).pending_eq
      have hgone : n.abort.stranded = n.pendingWrites := rfl
      exact Cluster.stranded_set hn rfl (hgone.trans hpending)
  | works i n step hn =>
      exact Cluster.stranded_set hn rfl
        (Node.stranded_advance (hbooked.nodes n (List.mem_of_getElem? hn)) s.wants step)
  | closes i n hn => exact Cluster.stranded_set hn rfl rfl

/-- In a run, stops have stranded what they gave up (`abandoned`), and nothing else. -/
theorem Balanced.stranded_after (h : s.Balanced) (steps : List Step) :
    (s.after steps).cluster.stranded = s.cluster.stranded + s.abandoned steps := by
  induction steps generalizing s with
  | nil => rfl
  | cons st steps ih =>
      have hstep := (s.changes_step st).stranded h.booked
      rw [after_cons, ih (h.step st), hstep, abandoned, Nat.add_assoc]

/-! ### Stops -/

section Stops

variable {early : Nat → Prop} {st : Step} {given : Nat} {c' : Cluster}

/-- Nothing opens a node again, or starts one that is closed, so `Closing` stays. -/
theorem Changes.closing {left : List Nat} (h : s.Changes st given c')
    (hclosing : s.cluster.Closing early left) : c'.Closing early left := by
  have hnodes : List.Forall₂ (fun n n' : Node => ∀ excused, n.EndsBut excused → n'.EndsBut excused)
      s.cluster.nodes c'.nodes :=
    h.nodes (fun _ _ hn => hn) (fun _ _ hqueued _ hn => hn.asked hqueued.asked)
      (fun _ _ _ _ _ htaken _ hn => hn.submitWrite htaken) (fun n _ hn => ⟨rfl, hn.2⟩)
      (fun n _ hn => ⟨hn.1, fun _ => .inl rfl⟩) (fun _ step _ hn => hn.advance s.wants step)
  refine ⟨h.stopped hclosing.stopped, fun i n' hn' => ?_⟩
  obtain ⟨hi', rfl⟩ := List.getElem?_eq_some_iff.mp hn'
  have hi : i < s.cluster.nodes.length := hnodes.length_eq ▸ hi'
  exact hnodes.get hi hi' _ (hclosing.nodes i _ (List.getElem?_eq_getElem hi))

/-- As long as the client is not stopped, only nodes that were closed early are closed. -/
def Opened (early : Nat → Prop) (c : Cluster) : Prop :=
  c.stopped = false → ∀ (i : Nat) (n : Node), c.nodes[i]? = some n → n.closed = true → early i

theorem Changes.opened (h : s.Changes st given c') (hst : ∀ i, st = .close i → early i)
    (hopened : Opened early s.cluster) : Opened early c' := by
  intro hrunning i n' hn' hclosed
  have hset {j : Nat} {n m : Node} (hn : s.cluster.nodes[j]? = some n)
      (hsame : m.closed = n.closed) (hrunning : s.cluster.stopped = false)
      (hn' : (s.cluster.nodes.set j m)[i]? = some n') : early i := by
    obtain ⟨rfl, rfl⟩ | ⟨-, hi⟩ := Cluster.getElem?_set_cases hn'
    · exact hopened hrunning i n hn (hsame ▸ hclosed)
    · exact hopened hrunning i n' hi hclosed
  cases h with
  | queues _ c _ base hasked =>
      obtain ⟨hi', rfl⟩ := List.getElem?_eq_some_iff.mp hn'
      have hi : i < c.nodes.length := hasked.nodes.length_eq ▸ hi'
      have hsame := Node.closed_queued (hasked.nodes.get hi hi')
      refine hopened (base.stopped ▸ hasked.stopped ▸ hrunning) i c.nodes[i] ?_ (hsame ▸ hclosed)
      rw [← base.nodes]
      exact List.getElem?_eq_getElem hi
  | writes _ c j n m key value expiration base running hn htaken =>
      rw [base.nodes] at hn hn'
      exact hset hn (Node.closed_submitWrite htaken) running hn'
  | loses _ c base => exact hopened (base.stopped ▸ hrunning) i n' (base.nodes ▸ hn') hclosed
  | stops unixSeconds c base running => contradiction
  | aborts _ j n hn hruns => exact hset hn (rfl : n.abort.closed = n.closed) hrunning hn'
  | works j n step hn =>
      exact hset hn (Node.advance_moves n s.wants step).kept.closed hrunning hn'
  | closes j n hn =>
      obtain ⟨rfl, rfl⟩ | ⟨-, hi⟩ := Cluster.getElem?_set_cases hn'
      · exact hst i rfl
      · exact hopened hrunning i n' hi hclosed

/-- The stops of a system, under way and returned: each has got as far as `Closing`
says. -/
structure Stopping (early : Nat → Prop) (s : System) : Prop where
  opened : Opened early s.cluster
  underway : ∀ p ∈ s.underway, p.1 = .stop →
    ∃ i rest, p.2 = .waits (.stop i rest) ∧ s.cluster.Closing early (i :: rest)
  returned : (Call.stop, Result.done) ∈ s.returned → s.cluster.Closing early []

/-- A stop has returned, or has got on, with the client in `Closing`. -/
def StopsAt (early : Nat → Prop) (stage : Stage) : Prop :=
  match stage.2 with
  | .inl result => result = .done → stage.1.Closing early []
  | .inr progress => ∃ i rest, progress = .waits (.stop i rest) ∧ stage.1.Closing early (i :: rest)

/-- A step of a call keeps `Stopping`, if that of a stop `StopsAt` where it has come to. -/
theorem Stopping.turned (h : s.Stopping early) {call : Call} {stage : Stage}
    (hopened : Opened early stage.1)
    (hkeeps : ∀ left, s.cluster.Closing early left → stage.1.Closing early left)
    (hstage : call = .stop → StopsAt early stage) : (s.turned call stage).Stopping early := by
  have hunderway : ∀ p ∈ s.underway, p.1 = .stop →
      ∃ i rest, p.2 = .waits (.stop i rest) ∧ stage.1.Closing early (i :: rest) := by
    intro p hp hstop
    obtain ⟨i, rest, hwaits, hclosing⟩ := h.underway p hp hstop
    exact ⟨i, rest, hwaits, hkeeps _ hclosing⟩
  have hreturned (hdone : (Call.stop, Result.done) ∈ s.returned) : stage.1.Closing early [] :=
    hkeeps _ (h.returned hdone)
  unfold System.turned
  unfold StopsAt at hstage
  cases hnext : stage.2 with
  | inl result =>
      rw [hnext] at hstage
      refine ⟨hopened, hunderway, fun hdone => ?_⟩
      obtain hdone | hdone := List.mem_append.mp hdone
      · exact hreturned hdone
      · obtain ⟨rfl, rfl⟩ := Prod.mk.inj (List.mem_singleton.mp hdone)
        exact hstage rfl rfl
  | inr progress =>
      rw [hnext] at hstage
      refine ⟨hopened, fun p hp hstop => ?_, hreturned⟩
      obtain hp | hp := List.mem_append.mp hp
      · exact hunderway p hp hstop
      · obtain rfl := List.mem_singleton.mp hp
        exact hstage hstop

/-- A stop that waits for the workers that are left. -/
theorem stopsAt_awaitEnds {c : Cluster} {left : List Nat} {turn : Cluster.Turn}
    (h : c.Closing early left) (hnext : turn.next = (c.awaitEnds left).next)
    (hcluster : turn.cluster = c) : StopsAt early turn.stage := by
  unfold StopsAt Cluster.Turn.stage
  rw [hnext, hcluster]
  obtain ⟨hdone, hclosing⟩ | ⟨i, rest, hwaits, hclosing⟩ := Cluster.closing_awaitEnds h
  · simpa [hdone] using hclosing
  · simpa [hwaits] using hclosing

/-- A stop that starts has closed every node, and waits for the workers. -/
theorem Stopping.start (h : s.Stopping early) (unixSeconds : Int) :
    StopsAt early (s.fresh.begin unixSeconds .stop) := by
  have hbegin : s.fresh.begin unixSeconds .stop = s.fresh.startStop.stage := rfl
  rw [hbegin]
  unfold Cluster.startStop
  cases hstopped : s.fresh.stopped with
  | true => simp [StopsAt, Cluster.Turn.stage, Cluster.Turn.returned]
  | false =>
      have hrunning : s.cluster.stopped = false := s.stopped_fresh ▸ hstopped
      refine stopsAt_awaitEnds ⟨rfl, fun i n hn => ?_⟩ rfl (Cluster.awaitEnds_cluster _ _)
      obtain ⟨m, hm, rfl⟩ : ∃ m, s.fresh.nodes[i]? = some m ∧ m.close = n := by simpa using hn
      refine ⟨rfl, fun hstarted => .inr ?_⟩
      cases hclosed : m.closed with
      | true => exact .inl (h.opened hrunning i m (s.base_fresh.nodes ▸ hm) hclosed)
      | false =>
          have hi : i < s.fresh.nodes.length := (List.getElem?_eq_some_iff.mp hm).1
          have hworks : m.isStarted = true := hstarted
          exact .inr (List.mem_filter.mpr ⟨List.mem_range.mpr hi, by simp [hm, hclosed, hworks]⟩)

/-- A stop that goes on waits for the workers that are left. -/
theorem Stopping.goOn {i : Nat} {rest : List Nat} (h : s.cluster.Closing early (i :: rest))
    (late : Bool) : StopsAt early (s.cluster.goOn late (.waits (.stop i rest))) := by
  have hgoOn : s.cluster.goOn late (.waits (.stop i rest)) =
      (s.cluster.resume late (.stop i rest)).stage := rfl
  rw [hgoOn]
  unfold Cluster.resume
  dsimp only
  split
  · rename_i hgone
    refine stopsAt_awaitEnds (h.imp fun j n hn hj => ?_) rfl (Cluster.awaitEnds_cluster _ _)
    obtain rfl | hj := List.mem_cons.mp hj
    · exact .inl (by simpa [hn] using hgone)
    · exact .inr hj
  · split
    · have haborted : Cluster.Closing early rest
          { s.cluster with nodes := s.cluster.nodes.modify i Node.abort } := by
        refine ⟨h.stopped, fun j n hn => ?_⟩
        obtain ⟨m, hm, rfl⟩ : ∃ m, s.cluster.nodes[j]? = some m ∧
            (if i = j then m.abort else m) = n := by
          simpa [List.getElem?_modify] using hn
        obtain ⟨hclosed, hends⟩ := h.nodes j m hm
        by_cases hij : i = j
        · rw [if_pos hij]
          exact ⟨hclosed, fun _ => .inl rfl⟩
        · rw [if_neg hij]
          refine ⟨hclosed, fun hstarted => (hends hstarted).imp_right fun hleft => ?_⟩
          exact hleft.imp_right fun hj => (List.mem_cons.mp hj).resolve_left (Ne.symm hij)
      exact stopsAt_awaitEnds haborted rfl (Cluster.awaitEnds_cluster _ _)
    · exact ⟨i, rest, rfl, h⟩

/-- **One step** keeps `Stopping`. -/
theorem Stopping.step (h : s.Stopping early) (hst : ∀ i, st = .close i → early i) :
    (s.step st).Stopping early := by
  have hopened : Opened early (s.step st).cluster := (s.changes_step st).opened hst h.opened
  have hkeeps (left : List Nat) (hleft : s.cluster.Closing early left) :
      (s.step st).cluster.Closing early left := (s.changes_step st).closing hleft
  have hstays (s' : System) (hcluster : s'.cluster = (s.step st).cluster)
      (hunderway : s'.underway.Sublist s.underway) (hreturned : s'.returned = s.returned) :
      s'.Stopping early := by
    refine ⟨hcluster ▸ hopened, fun p hp hstop => ?_, fun hdone => ?_⟩
    · obtain ⟨i, rest, hwaits, hclosing⟩ := h.underway p (hunderway.subset hp) hstop
      exact ⟨i, rest, hwaits, hcluster ▸ hkeeps _ hclosing⟩
    · exact hcluster ▸ hkeeps _ (h.returned (hreturned ▸ hdone))
  cases st with
  | start unixSeconds call =>
      simp only [System.step, cluster_turned] at hopened hkeeps
      refine h.turned hopened hkeeps fun hcall => ?_
      subst hcall
      exact h.start unixSeconds
  | resume position late =>
      cases hw : s.underway[position]? with
      | none => exact (step_resume_none hw late).symm ▸ h
      | some p =>
          rw [step_resume_some hw] at hopened hkeeps ⊢
          rw [cluster_turned] at hopened hkeeps
          have hrest : Stopping early { s with underway := s.underway.eraseIdx position } :=
            ⟨h.opened, fun p hp => h.underway p (List.mem_of_mem_eraseIdx hp), h.returned⟩
          refine hrest.turned hopened hkeeps fun hcall => ?_
          obtain ⟨i, rest, hwaits, hclosing⟩ := h.underway p (List.mem_of_getElem? hw) hcall
          rw [hwaits]
          exact Stopping.goOn hclosing late
  | abandon position => exact hstays _ rfl (List.eraseIdx_sublist ..) rfl
  | worker i step =>
      cases hn : s.cluster.nodes[i]? with
      | none => exact (step_worker_none hn step).symm ▸ h
      | some n => exact hstays _ rfl (by rw [step_worker_some hn]) (by rw [step_worker_some hn])
  | close i => exact hstays _ rfl (.refl _) rfl

/-- **A run** keeps `Stopping`. -/
theorem Stopping.after (h : s.Stopping early) {steps : List Step}
    (hsteps : ∀ i, .close i ∈ steps → early i) : (s.after steps).Stopping early := by
  induction steps generalizing s with
  | nil => exact h
  | cons st steps ih =>
      refine ih (h.step fun i hi => hsteps i (by simp [hi])) fun i hi => hsteps i (by simp [hi])

/-- A new client has no stops. -/
theorem stopping_create {settings : RemoteSettings} {c : Cluster}
    (hc : Cluster.create settings = .ok c) (early : Nat → Prop) :
    Stopping early { cluster := c } := by
  refine ⟨fun _ i n hn hclosed => ?_, by simp, by simp⟩
  unfold Cluster.create at hc
  split at hc
  · contradiction
  · obtain rfl := Except.ok.inj hc
    obtain ⟨address, -, rfl⟩ := List.mem_map.mp (List.mem_of_getElem? hn)
    contradiction

/-- The error with which a stopped client refuses a call. -/
def refusal : Call → StateFault
  | .stop => .remoteStoppedTwice
  | _ => .remoteStopped

/-- A stopped client refuses every call of its own at once (`refusal`), and keeps no
account of it. -/
theorem step_of_stopped (hstopped : s.cluster.stopped = true) (unixSeconds : Int) {call : Call}
    (hcall : call ≠ .awaitWrites) :
    s.step (.start unixSeconds call) = { s with
      cluster := s.fresh
      returned := s.returned ++ [(call, .error (.illegalState (refusal call)))] } := by
  have hfresh : s.fresh.stopped = true := s.stopped_fresh.trans hstopped
  cases call with
  | awaitWrites => contradiction
  | stop =>
      simp [step, turned, Cluster.begin, Cluster.start, Cluster.startRunning, Cluster.startStop,
        hfresh, Cluster.Turn.stage, Cluster.Turn.returned, refusal]
  | _ =>
      simp [step, turned, Cluster.begin, Cluster.start, hfresh, Cluster.Turn.stage,
        Cluster.Turn.returned, refusal]

/-- So it does with every write. -/
theorem refused_of_stopped (hstopped : s.cluster.stopped = true) (unixSeconds : Int) (key : String)
    (value : ByteArray) (ttl : UInt32) :
    s.step (.start unixSeconds (.set key value ttl)) = { s with
      cluster := s.fresh
      returned := s.returned ++
        [(.set key value ttl, .error (.illegalState .remoteStopped))] } :=
  step_of_stopped hstopped unixSeconds (by simp)

/-- A client stays `stopped` in every run. -/
theorem stopped_after (hstopped : s.cluster.stopped = true) (steps : List Step) :
    (s.after steps).cluster.stopped = true :=
  after_induction (fun s st h => (s.changes_step st).stopped h) hstopped steps

end Stops

/-- **What a stop leaves behind.** Take any interleaving in which a stop has
returned without an error. The accepted writes are those acknowledged, those
counted as dropped, and those still pending. If no node was closed on its own,
no more are pending than were left on workers that the stop gave up
(`System.abandoned`): none, if it gave up no worker with a write. Every later
write is refused, and no book changes. -/
theorem stop_settles {settings : RemoteSettings} {c : Cluster}
    (hc : Cluster.create settings = .ok c) (steps : List Step)
    (hdone : (Call.stop, Result.done) ∈ (System.after { cluster := c } steps).returned) :
    let s := System.after { cluster := c } steps
    s.returned.countP accepted =
        s.answered.countP acknowledges + s.cluster.stats.droppedWrites + s.cluster.pendingWrites ∧
      ((∀ i, .close i ∉ steps) →
        s.cluster.pendingWrites ≤ System.abandoned { cluster := c } steps) ∧
      ∀ later unixSeconds key value ttl,
        (s.after later).step (.start unixSeconds (.set key value ttl)) = { s.after later with
          cluster := (s.after later).fresh
          returned := (s.after later).returned ++
            [(.set key value ttl, .error (.illegalState .remoteStopped))] } := by
  intro s
  obtain ⟨hbooked, hunstored⟩ := Cluster.booked_create hc
  have hstart : Balanced { cluster := c } := ⟨hbooked, by simp, by simp [hunstored]⟩
  have hs : s.Balanced := after_induction (fun _ st h => h.step st) hstart steps
  have hclosing : s.cluster.Closing (Step.close · ∈ steps) [] :=
    ((stopping_create hc _).after fun i hi => hi).returned hdone
  refine ⟨?_, fun hclose => ?_,
    fun later => refused_of_stopped (stopped_after hclosing.stopped later)⟩
  · rw [hs.balance, Cluster.unstored_eq, Nat.add_assoc]
  · -- a worker that has not ended was never started, so no write waits for it
    have hnone : s.cluster.waiting = 0 := by
      refine List.sum_eq_zero fun k hk => ?_
      obtain ⟨n, hn, rfl⟩ := List.mem_map.mp hk
      obtain ⟨i, hi⟩ := List.getElem?_of_mem hn
      refine (hs.booked.nodes n hn).waiting_of_ended fun hstarted => ?_
      exact ((hclosing.nodes i n hi).2 hstarted).resolve_right (by simpa using hclose i)
    have hstranded := hstart.stranded_after steps
    rw [Cluster.stranded_create hc, Nat.zero_add] at hstranded
    rw [hs.booked.pending_eq, hstranded, hnone, Nat.add_zero]

/-- Whether a call is a stop that returned without an error. -/
def returnsStop : Call × Result → Bool
  | (.stop, .done) => true
  | _ => false

theorem mem_of_returnsStop {returned : List (Call × Result)} (h : returned.any returnsStop = true) :
    (Call.stop, Result.done) ∈ returned := by
  obtain ⟨p, hp, hstop⟩ := List.any_eq_true.mp h
  unfold returnsStop at hstop
  split at hstop
  · exact hp
  · contradiction

/-- Two writes, of which the first is stored. The stop gives the worker up while
it waits for the answer to the second: one write is neither acknowledged nor
counted as dropped, and it is the one that was given up. -/
theorem stop_settles_abandoned :
    let settings : RemoteSettings := ⟨[⟨"a", 1⟩], .ofSeconds 1, 4, none, none⟩
    let c : Cluster :=
      { timeout := settings.timeout, nodes := [Node.create settings ⟨"a", 1⟩] }
    let write (key : String) : Step := .start 0 (.set key ⟨#[7]⟩ 0)
    let steps : List Step :=
      [write "k", write "l", .worker 0 .take, .worker 0 (.dial .accepted), .start 0 .stop,
        .worker 0 (.exchange (.status .stored)), .worker 0 .take, .resume 0 true]
    let s := System.after { cluster := c } steps
    Cluster.create settings = .ok c ∧ (Call.stop, Result.done) ∈ s.returned ∧
      s.returned.countP accepted = 2 ∧ s.cluster.pendingWrites = 1 ∧
      System.abandoned { cluster := c } steps = 1 := by
  intro settings c write steps s
  have hc : Cluster.create settings = .ok c := rfl
  have hreturned : s.returned.any returnsStop = true := by decide +kernel
  have hdone : (Call.stop, Result.done) ∈ s.returned := mem_of_returnsStop hreturned
  obtain ⟨haccepted, hpending, -⟩ := stop_settles hc steps hdone
  have habandoned : System.abandoned { cluster := c } steps = 1 := by decide +kernel
  have hclose : ∀ i, .close i ∉ steps := by simp [steps, write]
  have hatMost : s.cluster.pendingWrites ≤ 1 := habandoned ▸ hpending hclose
  have hsome : 0 < s.cluster.pendingWrites := by decide +kernel
  have hone : s.cluster.pendingWrites = 1 := Nat.le_antisymm hatMost hsome
  have hbooks : s.answered.countP acknowledges + s.cluster.stats.droppedWrites = 1 := by
    decide +kernel
  exact ⟨hc, hdone, by rw [haccepted, hbooks, hone], hone, habandoned⟩

end System

/-- A server that takes connections and never answers. Of three writes one runs
into its time limit while the stop waits, for twice as long, and is counted as
dropped. The other two never reached the server either, but are not counted, and
stay pending after the stop has returned. -/
theorem stop_before_silent_server :
    let settings : RemoteSettings := ⟨[⟨"a", 1⟩], .ofSeconds 1, 4, none, none⟩
    let server : Server := { address := ⟨"a", 1⟩, mode := .stall }
    let idle : Live ServerFarm :=
      { cluster := { timeout := settings.timeout, nodes := [Node.create settings ⟨"a", 1⟩] }
        network := { servers := [server] } }
    let written : Live ServerFarm :=
      ["k", "l", "m"].foldl (fun l key => (l.call 0 (.set key ⟨#[7]⟩ 0)).2) idle
    let stop := written.call 0 .stop
    (stop.1 matches .done) = true ∧ written.cluster.pendingWrites = 3 ∧
      stop.2.cluster.stats.droppedWrites = 1 ∧ stop.2.cluster.pendingWrites = 2 := by
  decide +kernel

end CacheService.Remote
