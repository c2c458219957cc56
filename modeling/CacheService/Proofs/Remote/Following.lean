import Mathlib.Algebra.Ring.Int.Defs
import CacheService.Proofs.Remote.Changes

/-!
# CacheService.Proofs.Remote.Following

One call among others. A call that goes on is taken out of those under way and put back
behind them, so its position changes with every step of every call.

* `Followed` keeps one call in sight through any interleaving: `System.follow` starts
  the call, `Followed.step` tells the steps of the call (`Followed.owns`) from those of
  others, and `Standing` says what has become of it.
* The systems before and after each of its own steps are kept as its moves. What the
  call itself has done is what these differ in: the commands in `queuedIn` and the
  failures in `failuresIn`.
* Without other calls beside it (`Followed.IsAlone`), its failures are all that the
  client counts (`IsAlone.failures_after`).
-/

namespace CacheService.Remote

open Cluster (Call Progress Result Stage)

/-- What has become of a call: it is under way, has returned, or was given up. -/
inductive Standing
  /-- It is at a position among the calls under way. -/
  | underway (position : Nat)
  | returned (result : Result)
  | abandoned

/-- What becomes of a call in a step of its own, beside so many `others` under way. -/
def Standing.beside (others : Nat) : Result ⊕ Progress → Standing
  | .inl result => .returned result
  | .inr _ => .underway others

/-- Other calls stay at their positions while a call that has been taken out comes back
behind them (`System.turned`). -/
theorem System.getElem?_turned {s : System} {k : Nat} {p : Call × Progress}
    (h : s.underway[k]? = some p)
    (call : Call) (stage : Stage) : (s.turned call stage).underway[k]? = some p := by
  unfold System.turned
  cases stage.2 with
  | inl result => exact h
  | inr progress =>
      have hk : k < s.underway.length := (List.getElem?_eq_some_iff.mp h).1
      exact (List.getElem?_append_left hk).trans h

/-- A system with one of its calls, and the systems before and after each step of that
call. -/
structure Followed where
  system : System
  standing : Standing
  moves : List (System × System)

/-- The system after `call` has started, with that call in sight. -/
def System.follow (s : System) (unixSeconds : Int) (call : Call) : Followed where
  system := s.step (.start unixSeconds call)
  standing := .beside s.underway.length (s.fresh.begin unixSeconds call).2
  moves := [(s, s.step (.start unixSeconds call))]

namespace Followed

/-- Whether a step is one of the call that is followed. -/
def owns (f : Followed) : Step → Bool
  | .resume k _ =>
    match f.standing with
    | .underway position => k == position
    | .returned _ | .abandoned => false
  | _ => false

/-- What has become of the call after a step of anybody. -/
def standingAfter (f : Followed) (st : Step) : Standing :=
  match f.standing, st with
  | .underway position, .resume k late =>
    if k = position then
      match f.system.underway[k]? with
      | none => f.standing
      | some (_, progress) =>
        .beside (f.system.underway.length - 1) (f.system.cluster.goOn late progress).2
    else .underway (if k < position then position - 1 else position)
  | .underway position, .abandon k =>
    if k = position then .abandoned
    else .underway (if k < position then position - 1 else position)
  | standing, _ => standing

/-- A step of the system, which is a move of the call if the call `owns` it. -/
def step (f : Followed) (st : Step) : Followed where
  system := f.system.step st
  standing := f.standingAfter st
  moves := if f.owns st then f.moves ++ [(f.system, f.system.step st)] else f.moves

/-- Some steps of the system. -/
def after (f : Followed) (steps : List Step) : Followed := steps.foldl step f

/-- The time limit of the call is up, and it goes on; a call that has ended does not. -/
def overdue (f : Followed) : Followed :=
  match f.standing with
  | .underway position => f.step (.resume position true)
  | .returned _ | .abandoned => f

@[simp] theorem after_nil (f : Followed) : f.after [] = f := rfl

@[simp] theorem after_cons (f : Followed) (st : Step) (steps : List Step) :
    f.after (st :: steps) = (f.step st).after steps := rfl

@[simp] theorem system_step (f : Followed) (st : Step) :
    (f.step st).system = f.system.step st := rfl

/-- Following a call changes nothing: the system runs as it does by itself. -/
theorem system_after (f : Followed) (steps : List Step) :
    (f.after steps).system = f.system.after steps := by
  induction steps generalizing f with
  | nil => rfl
  | cons st steps ih => exact ih (f.step st)

/-! ## Keeping a call in sight -/

variable {f : Followed} {call : Call} {progress : Progress} {position : Nat}

/-- A call that is taken out lets those behind it move up. -/
theorem getElem?_eraseIdx_of_ne {α : Type} {l : List α} {k position : Nat} (hk : k ≠ position) :
    (l.eraseIdx k)[if k < position then position - 1 else position]? = l[position]? := by
  rw [List.getElem?_eraseIdx]
  by_cases hlt : k < position
  · rw [if_pos hlt, if_neg (by omega), Nat.sub_add_cancel (by omega)]
  · rw [if_neg hlt, if_pos (by omega)]

/-- **The call goes on**, and comes behind all others. -/
theorem step_own (hstanding : f.standing = .underway position)
    (hcall : f.system.underway[position]? = some (call, progress)) (late : Bool) :
    f.step (.resume position late) =
      { system := f.system.step (.resume position late)
        standing := .beside (f.system.underway.length - 1) (f.system.cluster.goOn late progress).2
        moves := f.moves ++ [(f.system, f.system.step (.resume position late))] } := by
  simp [step, standingAfter, owns, hstanding, hcall]

/-- **Any other step** leaves a call under way as it is, maybe at another position,
unless it is given up. -/
theorem step_other (hstanding : f.standing = .underway position)
    (hcall : f.system.underway[position]? = some (call, progress)) {st : Step}
    (hst : ∀ late, st ≠ .resume position late) :
    f.step st = ⟨f.system.step st, .abandoned, f.moves⟩ ∨
      ∃ k, f.step st = ⟨f.system.step st, .underway k, f.moves⟩ ∧
        (f.system.step st).underway[k]? = some (call, progress) := by
  cases st with
  | start unixSeconds call' =>
      refine .inr ⟨position, ?_, System.getElem?_turned hcall call' _⟩
      simp [step, standingAfter, owns, hstanding]
  | resume k late =>
      have hk : k ≠ position := fun hk => hst late (hk ▸ rfl)
      refine .inr ⟨if k < position then position - 1 else position, ?_, ?_⟩
      · simp [step, standingAfter, owns, hstanding, hk]
      · cases hother : f.system.underway[k]? with
        | none =>
            have hlt : position < f.system.underway.length := (List.getElem?_eq_some_iff.mp hcall).1
            have hout : f.system.underway.length ≤ k := List.getElem?_eq_none_iff.mp hother
            rw [System.step_resume_none hother, if_neg (by omega), hcall]
        | some other =>
            rw [System.step_resume_some hother]
            exact System.getElem?_turned ((getElem?_eraseIdx_of_ne hk).trans hcall) _ _
  | abandon k =>
      by_cases hk : k = position
      · exact .inl (by simp [step, standingAfter, owns, hstanding, hk])
      · refine .inr ⟨_, ?_, (getElem?_eraseIdx_of_ne hk).trans hcall⟩
        simp [step, standingAfter, owns, hstanding, hk]
  | worker i st =>
      refine .inr ⟨position, by simp [step, standingAfter, owns, hstanding], ?_⟩
      cases hn : f.system.cluster.nodes[i]? with
      | none => rwa [System.step_worker_none hn]
      | some n => rwa [System.step_worker_some hn]
  | close i =>
      exact .inr ⟨position, by simp [step, standingAfter, owns, hstanding], hcall⟩

/-- A call that goes on is not given up. -/
theorem standing_step_own (hstanding : f.standing = .underway position)
    (hcall : f.system.underway[position]? = some (call, progress)) (late : Bool) :
    (f.step (.resume position late)).standing ≠ .abandoned := by
  rw [step_own hstanding hcall]
  cases (f.system.cluster.goOn late progress).2 <;> simp [Standing.beside]

/-- A call that has returned or was given up makes no more moves. -/
theorem step_of_ended (hended : ∀ position, f.standing ≠ .underway position) (st : Step) :
    f.step st = { f with system := f.system.step st } := by
  cases hstanding : f.standing with
  | underway position => exact absurd hstanding (hended position)
  | _ => cases st <;> simp [step, standingAfter, owns, hstanding]

end Followed

/-! ## What a call does in its moves -/

namespace Cluster

/-- The failures that a client has counted: `timeouts` and `errors`. -/
def failures (c : Cluster) : Nat := c.stats.timeouts + c.stats.errors

/-- The commands of node `i` that have not run; none if there is no such node. -/
def backlogAt (c : Cluster) (i : Nat) : List Command := (c.nodes[i]?.map Node.backlog).getD []

/-- The commands that are queued on the way from `c` to `c'`, by node. -/
def added (c c' : Cluster) : List (Nat × Command) :=
  c.positions.flatMap fun i => ((c'.backlogAt i).drop (c.backlogAt i).length).map (i, ·)

variable {c c' : Cluster}

/-- Where only `a` has something, `flatMap` is what `a` has. -/
theorem flatMap_of_single {α β : Type} {l : List α} {a : α} (hl : l.Nodup) (ha : a ∈ l)
    {g : α → List β} (hg : ∀ b, b ≠ a → g b = []) : l.flatMap g = g a := by
  obtain ⟨before, later, rfl⟩ := List.append_of_mem ha
  have hnone {l' : List α} (hl' : a ∉ l') : l'.flatMap g = [] :=
    List.flatMap_eq_nil_iff.mpr fun b hb => hg b fun hba => hl' (hba ▸ hb)
  obtain ⟨-, hlater, hdisjoint⟩ := List.nodup_append.mp hl
  rw [List.flatMap_append, List.flatMap_cons, hnone (List.nodup_cons.mp hlater).1,
    hnone fun hmem => hdisjoint a hmem a List.mem_cons_self rfl, List.nil_append, List.append_nil]

/-- Nothing is `added` while the nodes stay the same. -/
theorem added_of_nodes (h : c'.nodes = c.nodes) : c.added c' = [] := by
  simp [added, backlogAt, h]

/-- One command is queued on one node, and is all that is `added`. -/
theorem added_of_set {i : Nat} {n n' : Node} {command : Command} (hn : c.nodes[i]? = some n)
    (hbacklog : n'.backlog = n.backlog ++ [command]) (h : c'.nodes = c.nodes.set i n') :
    c.added c' = [(i, command)] := by
  have hi : i ∈ c.positions := List.mem_range.mpr (List.getElem?_eq_some_iff.mp hn).1
  have hnodup : c.positions.Nodup := List.nodup_range
  have hself : c'.nodes[i]? = some n' := by rw [h, getElem?_set_of_some hn]
  rw [added, flatMap_of_single hnodup hi]
  · simp [backlogAt, hn, hself, hbacklog]
  · intro j hj
    simp [backlogAt, h, List.getElem?_set_ne (Ne.symm hj)]

end Cluster

/-- The commands that a call has queued in its moves, by node. -/
def queuedIn (moves : List (System × System)) : List (Nat × Command) :=
  moves.flatMap fun move => move.1.cluster.added move.2.cluster

/-- One more move adds what its two systems differ in. -/
theorem queuedIn_concat (moves : List (System × System)) (s s' : System) :
    queuedIn (moves ++ [(s, s')]) = queuedIn moves ++ s.cluster.added s'.cluster := by
  simp [queuedIn]

/-- The failures that are counted in the moves of a call. -/
def failuresIn (moves : List (System × System)) : Int :=
  (moves.map fun move => (move.2.cluster.failures - move.1.cluster.failures : Int)).sum

/-- One more move adds the failures that its two systems differ in. -/
theorem failuresIn_concat (moves : List (System × System)) (s s' : System) :
    failuresIn (moves ++ [(s, s')]) =
      failuresIn moves + (s'.cluster.failures - s.cluster.failures) := by
  simp [failuresIn]

namespace System

/-- Whether a call has returned with a result, or has got so far and is at a position
among those under way. -/
def HasCome (s : System) (call : Call) (position : Nat) : Result ⊕ Progress → Prop
  | .inl result => (call, result) ∈ s.returned
  | .inr progress => s.underway[position]? = some (call, progress)

/-- A call that makes a step comes behind all others, and stands as `HasCome` says. -/
theorem hasCome_turned (s : System) (call : Call) (stage : Stage) :
    (s.turned call stage).HasCome call s.underway.length stage.2 := by
  obtain ⟨c, result | progress⟩ := stage
  · exact List.mem_append_right _ (List.mem_singleton.mpr rfl)
  · exact List.getElem?_concat_length

/-- So does one that goes on. -/
theorem hasCome_resume {s : System} {position : Nat} {call : Call} {progress : Progress}
    (h : s.underway[position]? = some (call, progress)) (late : Bool) :
    (s.step (.resume position late)).HasCome call (s.underway.length - 1)
      (s.cluster.goOn late progress).2 := by
  rw [step_resume_some h, ← List.length_eraseIdx_of_lt (List.getElem?_eq_some_iff.mp h).1]
  exact hasCome_turned { s with underway := s.underway.eraseIdx position } call _

/-- What has `returned` is never taken back. -/
theorem returned_step (s : System) (st : Step) : s.returned ⊆ (s.step st).returned := by
  have hturned (s : System) (call : Call) (stage : Stage) :
      s.returned ⊆ (s.turned call stage).returned := by
    unfold turned
    cases stage.2 with
    | inl result => exact List.subset_append_left ..
    | inr progress => exact List.Subset.refl _
  cases st with
  | start unixSeconds call => exact hturned ..
  | resume k late =>
      cases hk : s.underway[k]? with
      | none =>
          rw [step_resume_none hk]
          exact List.Subset.refl _
      | some p =>
          rw [step_resume_some hk]
          exact hturned { s with underway := s.underway.eraseIdx k } ..
  | abandon k => exact List.Subset.refl _
  | worker i st =>
      cases hn : s.cluster.nodes[i]? with
      | none =>
          rw [step_worker_none hn]
          exact List.Subset.refl _
      | some n =>
          rw [step_worker_some hn]
          exact List.Subset.refl _
  | close i => exact List.Subset.refl _

/-- Only workers hear of servers, so other steps leave `answered` as it is. -/
theorem answered_step (s : System) {st : Step} (hst : ∀ i step, st ≠ .worker i step) :
    (s.step st).answered = s.answered := by
  have hturned (s : System) (call : Call) (stage : Stage) :
      (s.turned call stage).answered = s.answered := by
    unfold turned
    cases stage.2 <;> rfl
  cases st with
  | start unixSeconds call => exact hturned ..
  | resume k late =>
      cases hk : s.underway[k]? with
      | none => rw [step_resume_none hk]
      | some p =>
          rw [step_resume_some hk]
          exact hturned { s with underway := s.underway.eraseIdx k } ..
  | abandon k => rfl
  | worker i step => exact absurd rfl (hst i step)
  | close i => rfl

/-- `failures` are counted by calls that start or go on. -/
theorem failures_step {s : System} {st : Step}
    (hstart : ∀ unixSeconds call, st ≠ .start unixSeconds call)
    (hresume : ∀ position late, st = .resume position late → s.underway[position]? = none) :
    (s.step st).cluster.failures = s.cluster.failures := by
  cases st with
  | start unixSeconds call => exact absurd rfl (hstart unixSeconds call)
  | resume position late => rw [step_resume_none (hresume position late rfl)]
  | abandon position => rfl
  | worker i step =>
      cases hn : s.cluster.nodes[i]? with
      | none => rw [step_worker_none hn]
      | some n =>
          rw [step_worker_some hn, Cluster.worked_eq]
          rfl
  | close i => rfl

end System

/-! ### A call that is alone -/

namespace Followed

/-- Whether no call is under way but, at most, the one that is followed. -/
def IsAlone (f : Followed) : Prop :=
  f.system.underway = [] ∨ f.standing = .underway 0 ∧ ∃ p, f.system.underway = [p]

variable {f : Followed} {st : Step}

/-- A call that has none beside it comes to be alone. -/
theorem alone_turned {s : System} (h : s.underway = []) (call : Call) (stage : Stage) :
    (s.turned call stage).underway = [] ∨
      Standing.beside 0 stage.2 = .underway 0 ∧ ∃ p, (s.turned call stage).underway = [p] := by
  obtain ⟨c, result | progress⟩ := stage
  · exact .inl h
  · exact .inr ⟨rfl, (call, progress), by simp [System.turned, h]⟩

/-- A call that starts where none is under way is alone. -/
theorem isAlone_follow {s : System} (h : s.underway = []) (unixSeconds : Int) (call : Call) :
    (s.follow unixSeconds call).IsAlone := by
  rw [System.follow, h]
  exact alone_turned h call (s.fresh.begin unixSeconds call)

/-- A step beside a call that is alone is its own, or goes on with no call. -/
theorem IsAlone.owns_or (h : f.IsAlone) (st : Step) :
    f.owns st = true ∨ ∀ position late, st = .resume position late →
      f.system.underway[position]? = none := by
  obtain hidle | ⟨hstanding, p, hcall⟩ := h
  · exact .inr fun position late hst => by simp [hidle]
  · by_cases hown : ∃ late, st = .resume 0 late
    · obtain ⟨late, rfl⟩ := hown
      exact .inl (by simp [owns, hstanding])
    · refine .inr fun position late hst => ?_
      have hposition : position ≠ 0 := fun h0 => hown ⟨late, h0 ▸ hst⟩
      simp [hcall, hposition]

/-- `IsAlone` stays while no other call starts. -/
theorem IsAlone.step (h : f.IsAlone) (hstart : ∀ unixSeconds call, st ≠ .start unixSeconds call) :
    (f.step st).IsAlone := by
  cases st with
  | start unixSeconds call => exact absurd rfl (hstart unixSeconds call)
  | resume k late =>
      obtain hidle | ⟨hstanding, ⟨call, progress⟩, hcall⟩ := h
      · refine .inl ?_
        rwa [system_step, System.step_resume_none (by simp [hidle])]
      · cases k with
        | zero =>
            have hget : f.system.underway[0]? = some (call, progress) := by simp [hcall]
            rw [step_own hstanding hget, System.step_resume_some hget, hcall]
            exact alone_turned rfl call (f.system.cluster.goOn late progress)
        | succ k =>
            refine .inr ⟨?_, (call, progress), ?_⟩
            · simp [Followed.step, standingAfter, hstanding]
            · rwa [system_step, System.step_resume_none (by simp [hcall])]
  | abandon k =>
      obtain hidle | ⟨hstanding, p, hcall⟩ := h
      · exact .inl (by simp [System.step, hidle])
      · cases k with
        | zero => exact .inl (by simp [System.step, hcall])
        | succ k =>
            exact .inr
              ⟨by simp [Followed.step, standingAfter, hstanding], p, by simp [System.step, hcall]⟩
  | worker i step =>
      have hsame : (f.system.step (.worker i step)).underway = f.system.underway := by
        cases hn : f.system.cluster.nodes[i]? with
        | none => rw [System.step_worker_none hn]
        | some n => rw [System.step_worker_some hn]
      simpa [IsAlone, Followed.step, standingAfter, hsame] using h
  | close i => simpa [IsAlone, Followed.step, standingAfter, System.step] using h

/-- Every failure that is counted in a step is one of the call that is alone. -/
theorem IsAlone.failures_step (h : f.IsAlone)
    (hstart : ∀ unixSeconds call, st ≠ .start unixSeconds call) :
    ((f.step st).system.cluster.failures : Int) - failuresIn (f.step st).moves =
      f.system.cluster.failures - failuresIn f.moves := by
  cases hown : f.owns st with
  | true =>
      simp only [Followed.step, hown, if_true, failuresIn_concat]
      omega
  | false =>
      have hother := (h.owns_or st).resolve_left (by simp [hown])
      simp [Followed.step, hown, System.failures_step hstart hother]

/-- What a client counts in a run of a call that `IsAlone` is what the call counts. -/
theorem IsAlone.failures_after (h : f.IsAlone) {steps : List Step}
    (hstart : ∀ unixSeconds call, .start unixSeconds call ∉ steps) :
    ((f.after steps).system.cluster.failures : Int) - failuresIn (f.after steps).moves =
      f.system.cluster.failures - failuresIn f.moves := by
  induction steps generalizing f with
  | nil => rfl
  | cons st steps ih =>
      have hst : ∀ unixSeconds call, st ≠ .start unixSeconds call := fun unixSeconds call hst =>
        hstart unixSeconds call (hst ▸ List.mem_cons_self)
      exact (ih (h.step hst) fun unixSeconds call hmem =>
        hstart unixSeconds call (List.mem_cons_of_mem st hmem)).trans (h.failures_step hst)

end Followed

end CacheService.Remote
