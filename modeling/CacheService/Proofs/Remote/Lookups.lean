import CacheService.Proofs.Remote.Changes
import CacheService.Proofs.Remote.Outcomes

/-!
# CacheService.Proofs.Remote.Lookups

What the counters of a client say about its lookups and its failures. A `Journal` is
kept beside a run: what each call has settled, at the step in which it settles it
(`System.note`). Every step adds to the counters what it adds to the journal, and every
call that returns has settled one lookup for each key that it reads, one delete for its
valid key and one flush for each node.

* `System.Recorded` — a system and its journal agree. `Recorded.step` keeps it, by what
  each call accounts for (`Cluster.Accounts`).
* `System.lookups_accounted` — so the counters are counts of the journal, at every point
  of every interleaving.
-/

namespace CacheService.Remote

/-- How many keys a call looks up. -/
def Cluster.Call.lookups : Cluster.Call → Nat
  | .get _ => 1
  | .getMany keys => keys.length
  | .set .. | .delete _ | .clear | .stop | .awaitWrites => 0

namespace Cluster

/-- A call that returns has settled a lookup for each key, whether it is listed once or
several times, and whether it is valid or not. -/
theorem Settles.lookups {nodes : Nat} {call : Call} {result : Result} {os : List Outcome}
    (h : Settles nodes call result os)
    (hresult : ∀ e, result = .error e → e.isIllegalState = false) :
    os.countP Outcome.isLookup = call.lookups := by
  cases result with
  | error e =>
      have he : e.isIllegalState = true := by cases call <;> exact h
      rw [hresult e rfl] at he
      contradiction
  | value value =>
      cases call with
      | get key =>
          change if _ then _ else _ at h
          split at h
          · obtain ⟨finding, rfl, -⟩ := h
            rfl
          · rw [h.1]
            rfl
      | _ => exact h.elim
  | found found =>
      cases call with
      | getMany keys =>
          obtain ⟨reads, rfl, hkeys, -⟩ := h
          have hinvalid : (invalids keys).countP Outcome.isLookup =
              (keys.filter fun key => !isValidKey key).length := by
            rw [invalids, List.countP_map]
            exact List.countP_eq_length.mpr fun _ _ => rfl
          have hvalid : (reads.map fun read => Outcome.read read.1 read.2).countP Outcome.isLookup =
              (keys.filter isValidKey).length := by
            rw [List.countP_map, ← hkeys, List.length_map]
            exact List.countP_eq_length.mpr fun _ _ => rfl
          rw [List.countP_append, hinvalid, hvalid, Nat.add_comm]
          exact (List.length_eq_length_filter_add isValidKey).symm
      | _ => exact h.elim
  | done =>
      cases call with
      | get key => exact h.elim
      | getMany keys => exact h.elim
      | delete key =>
          change if _ then _ else _ at h
          split at h
          · obtain ⟨finding, rfl⟩ := h
            rfl
          · rw [h]
            rfl
      | clear =>
          obtain ⟨flushes, rfl, -⟩ := h
          rw [List.countP_map]
          exact List.countP_eq_zero.mpr fun _ _ => by simp [Outcome.isLookup]
      | _ =>
          obtain rfl : os = [] := h
          rfl

end Cluster

open Cluster (Call Progress Result Stage)

/-! ## The journal -/

/-- What calls have settled, in the order of the calls of a system: those under
way and those that have returned; and what calls had settled that were given up. -/
structure Journal where
  underway : List (List Outcome) := []
  returned : List (List Outcome) := []
  abandoned : List Outcome := []

namespace Journal

/-- All that has been settled by calls in the journal. -/
def outcomes (j : Journal) : List Outcome :=
  j.returned.flatten ++ (j.underway.flatten ++ j.abandoned)

/-- Takes in all that a call has settled, with the step that it has just made. -/
def turned (j : Journal) (os : List Outcome) : Result ⊕ Progress → Journal
  | .inl _ => { j with returned := j.returned ++ [os] }
  | .inr _ => { j with underway := j.underway ++ [os] }

/-- A step of a call adds what it has settled to all `outcomes`. -/
theorem countP_turned (j : Journal) (os : List Outcome) (next : Result ⊕ Progress)
    (p : Outcome → Bool) : (j.turned os next).outcomes.countP p = (j.outcomes ++ os).countP p := by
  cases next <;> simp only [turned, outcomes, List.flatten_append, List.flatten_singleton,
    List.countP_append] <;> omega

/-- A call is taken out of those under way, with what it has settled. -/
theorem countP_eraseIdx (j : Journal) (k : Nat) (p : Outcome → Bool) :
    (outcomes { j with underway := j.underway.eraseIdx k } ++ j.underway[k]?.getD []).countP p =
      j.outcomes.countP p := by
  by_cases hk : k < j.underway.length
  · have hperm := (List.getElem_cons_eraseIdx_perm hk).flatten.countP_eq p
    rw [List.getElem?_eq_getElem hk, Option.getD_some]
    simp only [outcomes, List.flatten_cons, List.countP_append] at hperm ⊢
    omega
  · rw [List.getElem?_eq_none (by omega), List.eraseIdx_of_length_le (by omega)]
    simp

end Journal

/-- A relation between two lists holds without the elements at one position. -/
theorem forall₂_eraseIdx {α β : Type} {R : α → β → Prop} {l : List α} {l' : List β}
    (h : List.Forall₂ R l l') (k : Nat) : List.Forall₂ R (l.eraseIdx k) (l'.eraseIdx k) := by
  induction h generalizing k with
  | nil => exact .nil
  | cons hab hrest ih =>
      cases k with
      | zero => exact hrest
      | succ k => exact .cons hab (ih k)

/-- A relation between two lists holds with one more pair. -/
theorem forall₂_concat {α β : Type} {R : α → β → Prop} {l : List α} {l' : List β} {a : α} {b : β}
    (h : List.Forall₂ R l l') (hab : R a b) : List.Forall₂ R (l ++ [a]) (l' ++ [b]) :=
  List.rel_append h (.cons hab .nil)

namespace System

/-- The journal after a `Step` of the system. Workers settle nothing. -/
def note (s : System) (j : Journal) : Step → Journal
  | .start unixSeconds call =>
    j.turned (s.fresh.settledAtOnce call) (s.fresh.begin unixSeconds call).2
  | .resume k late =>
    match s.underway[k]?, j.underway[k]? with
    | some (_, progress), some os =>
      Journal.turned { j with underway := j.underway.eraseIdx k }
        (os ++ s.cluster.settledNext late progress) (s.cluster.goOn late progress).2
    | _, _ => j
  | .abandon k =>
    { j with
      underway := j.underway.eraseIdx k
      abandoned := j.abandoned ++ j.underway[k]?.getD [] }
  | .worker .. | .close _ => j

/-- The journal after some steps, by `note`. -/
def journal (s : System) (j : Journal) : List Step → Journal
  | [] => j
  | st :: steps => (s.step st).journal (s.note j st) steps

/-- A system and its journal agree: calls have settled what they owe, and the
counters have grown by all of it, what the call in hand has settled included. -/
structure Recorded (nodes : Nat) (c : Cluster) (s : System) (j : Journal) (inHand : List Outcome) :
    Prop where
  length : s.cluster.nodes.length = nodes
  returned :
    List.Forall₂ (fun call os => Cluster.Settles nodes call.1 call.2 os) s.returned j.returned
  underway :
    List.Forall₂ (fun call os => Cluster.HasSettled nodes call.1 call.2 os) s.underway j.underway
  adds : c.Adds (j.outcomes ++ inHand) s.cluster

variable {nodes : Nat} {c : Cluster} {s : System} {j : Journal}

/-- What is no step of a call is not recorded. -/
theorem Recorded.others {s' : System} (h : Recorded nodes c s j [])
    (hlength : s'.cluster.nodes.length = nodes) (hreturned : s'.returned = s.returned)
    (hunderway : s'.underway = s.underway) (hadds : s.cluster.Adds [] s'.cluster) :
    Recorded nodes c s' j [] :=
  ⟨hlength, hreturned ▸ h.returned, hunderway ▸ h.underway, by simpa using h.adds.trans hadds⟩

/-- The call in hand has made a step, and what it `Accounts` for is recorded. -/
theorem Recorded.turned {call : Call} {before news : List Outcome} {stage : Stage}
    (h : Recorded nodes c s j before) (haccounts : s.cluster.Accounts call before news stage)
    (hlength : stage.1.nodes.length = nodes) :
    Recorded nodes c (s.turned call stage) (j.turned (before ++ news) stage.2) [] := by
  obtain ⟨c', next⟩ := stage
  have hadds : c.Adds ((j.turned (before ++ news) next).outcomes ++ []) c' :=
    (h.adds.trans haccounts.adds).congr fun p => by
      rw [List.append_nil, j.countP_turned, List.append_assoc]
  have hsettled := haccounts.settled
  rw [h.length] at hsettled
  cases next with
  | inl result => exact ⟨hlength, forall₂_concat h.returned hsettled, h.underway, hadds⟩
  | inr progress => exact ⟨hlength, h.returned, forall₂_concat h.underway hsettled, hadds⟩

/-- A call under way is taken in hand, with what the journal has of it. -/
theorem Recorded.take (h : Recorded nodes c s j []) {k : Nat} {call : Call} {progress : Progress}
    (hk : s.underway[k]? = some (call, progress)) :
    ∃ os, j.underway[k]? = some os ∧ Cluster.HasSettled nodes call progress os ∧
      Recorded nodes c { s with underway := s.underway.eraseIdx k }
        { j with underway := j.underway.eraseIdx k } os := by
  obtain ⟨hk, hcall⟩ := List.getElem?_eq_some_iff.mp hk
  have hk' : k < j.underway.length := h.underway.length_eq ▸ hk
  have hos := List.getElem?_eq_getElem hk'
  have hsettled := h.underway.get hk hk'
  simp only [List.get_eq_getElem, hcall] at hsettled
  refine ⟨_, hos, hsettled, h.length, h.returned, forall₂_eraseIdx h.underway k, ?_⟩
  refine h.adds.congr fun p => ?_
  have hcount := j.countP_eraseIdx k p
  rwa [hos, Option.getD_some, ← List.append_nil j.outcomes] at hcount

/-- **One step** keeps a system and its journal in agreement. -/
theorem Recorded.step (h : Recorded nodes c s j []) (hbalanced : s.Balanced) (st : Step) :
    Recorded nodes c (s.step st) (s.note j st) [] := by
  have hlength : (s.step st).cluster.nodes.length = nodes := (length_after s [st]).trans h.length
  cases st with
  | start unixSeconds call =>
      have hfresh : Recorded nodes c { s with cluster := s.fresh } j [] := by
        unfold fresh
        split
        · exact h.others h.length rfl rfl (.of_eq rfl rfl rfl rfl)
        · exact h
      have hbooked := (hbalanced.booked.asks s.asks_fresh).1
      have haccounts := Cluster.accounts_begin hbooked unixSeconds call
      have hturned := hfresh.turned haccounts (by
        cases hnext : (s.fresh.begin unixSeconds call).2 <;>
          simpa [System.step, System.turned, hnext] using hlength)
      rwa [turned_cluster] at hturned
  | resume k late =>
      cases hk : s.underway[k]? with
      | none =>
          have hnote : s.note j (.resume k late) = j := by simp [note, hk]
          rw [step_resume_none hk, hnote]
          exact h
      | some p =>
          obtain ⟨call, progress⟩ := p
          obtain ⟨os, hos, hsettled, htaken⟩ := h.take hk
          have hgoesOn := Cluster.accounts_goOn s.cluster late (h.length.symm ▸ hsettled)
          rw [step_resume_some hk] at hlength ⊢
          have hnote : s.note j (.resume k late) =
              Journal.turned { j with underway := j.underway.eraseIdx k }
                (os ++ s.cluster.settledNext late progress) (s.cluster.goOn late progress).2 := by
            simp [note, hk, hos]
          rw [hnote]
          refine htaken.turned hgoesOn ?_
          cases hnext : (s.cluster.goOn late progress).2 <;>
            simpa [System.turned, hnext] using hlength
  | abandon k =>
      refine ⟨hlength, h.returned, forall₂_eraseIdx h.underway k, h.adds.congr fun p => ?_⟩
      have hcount := j.countP_eraseIdx k p
      simp only [note, Journal.outcomes, List.countP_append] at hcount ⊢
      omega
  | worker i step =>
      cases hn : s.cluster.nodes[i]? with
      | none => exact (step_worker_none hn step).symm ▸ h
      | some n =>
          rw [step_worker_some hn, Cluster.worked_eq] at hlength ⊢
          exact h.others hlength rfl rfl (.of_eq rfl rfl rfl rfl)
  | close i => exact h.others hlength rfl rfl (.of_eq rfl rfl rfl rfl)

/-- **A run** does, too. -/
theorem Recorded.journal (h : Recorded nodes c s j []) (hbalanced : s.Balanced)
    (steps : List Step) :
    Recorded nodes c (s.after steps) (s.journal j steps) [] := by
  induction steps generalizing s j with
  | nil => exact h
  | cons st steps ih => exact ih (h.step hbalanced st) (hbalanced.step st)

/-- In a run in which no call is given up, nothing is `abandoned`. -/
theorem abandoned_journal {steps : List Step} (h : ∀ k, .abandon k ∉ steps) :
    (s.journal j steps).abandoned = j.abandoned := by
  have hturned (j : Journal) (os : List Outcome) (next : Result ⊕ Progress) :
      (j.turned os next).abandoned = j.abandoned := by
    cases next <;> rfl
  induction steps generalizing s j with
  | nil => rfl
  | cons st steps ih =>
      have hnote : (s.note j st).abandoned = j.abandoned := by
        cases st with
        | start unixSeconds call => exact hturned ..
        | resume k late =>
            unfold note
            dsimp only
            split
            · exact hturned ..
            · rfl
        | abandon k => exact absurd List.mem_cons_self (h k)
        | worker i step => rfl
        | close i => rfl
      exact (ih fun k hk => h k (List.mem_cons_of_mem st hk)).trans hnote

/-- Calls that have met nothing stopped have settled a lookup for each key. -/
theorem countP_lookups {returned : List (Call × Result)} {settled : List (List Outcome)}
    (h : List.Forall₂ (fun call os => Cluster.Settles nodes call.1 call.2 os) returned settled)
    (hresults : ∀ call e, (call, Result.error e) ∈ returned → e.isIllegalState = false) :
    settled.flatten.countP Outcome.isLookup = (returned.map fun call => call.1.lookups).sum := by
  induction h with
  | nil => rfl
  | @cons p os rest _ hsettles _ ih =>
      have hlookups : os.countP Outcome.isLookup = p.1.lookups :=
        hsettles.lookups fun e he => hresults p.1 e (he ▸ List.mem_cons_self)
      have hrest := ih fun call e hmem => hresults call e (List.mem_cons_of_mem p hmem)
      rw [List.flatten_cons, List.countP_append, hlookups, hrest, List.map_cons, List.sum_cons]

/-- A new client and an empty journal agree, and nothing has been counted. -/
theorem recorded_create {settings : RemoteSettings} (hc : Cluster.create settings = .ok c) :
    Recorded settings.nodes.length c { cluster := c } {} [] ∧
      c.hits = 0 ∧ c.misses = 0 ∧ c.timeouts = 0 ∧ c.errors = 0 := by
  unfold Cluster.create at hc
  split at hc
  · contradiction
  · obtain rfl := Except.ok.inj hc
    exact ⟨⟨List.length_map _, .nil, .nil, .refl _⟩, rfl, rfl, rfl, rfl⟩

/-- **Lookups and failures are counted once each.** At every point of every
interleaving of calls, workers and network, the counters are counts of what
calls have settled, and each call that has returned has settled one lookup for
each of its keys, one delete for a valid key, one flush for each node. Where no
call is under way, none was given up and none met something stopped, that is all
that has been settled, and hits and misses make up the keys looked up. -/
theorem lookups_accounted {settings : RemoteSettings} (hc : Cluster.create settings = .ok c)
    (steps : List Step) :
    let s := System.after { cluster := c } steps
    let j := System.journal { cluster := c } {} steps
    List.Forall₂ (fun call os => Cluster.Settles settings.nodes.length call.1 call.2 os)
        s.returned j.returned ∧
      s.cluster.stats.hits = j.outcomes.countP Outcome.isHit ∧
      s.cluster.stats.misses = j.outcomes.countP Outcome.isInvalid +
        j.outcomes.countP Outcome.isAbsent + j.outcomes.countP Outcome.isFailedLookup ∧
      s.cluster.stats.timeouts + s.cluster.stats.errors = j.outcomes.countP Outcome.isFailedLookup +
        j.outcomes.countP Outcome.isFailedDelete + j.outcomes.countP Outcome.isFailedFlush ∧
      s.cluster.stats.timeouts = j.outcomes.countP Outcome.timedOut ∧
      s.cluster.stats.errors = j.outcomes.countP Outcome.erred ∧
      (s.underway = [] → (∀ k, .abandon k ∉ steps) →
        (∀ call e, (call, Result.error e) ∈ s.returned → e.isIllegalState = false) →
        j.outcomes = j.returned.flatten ∧
          s.cluster.stats.hits + s.cluster.stats.misses =
            (s.returned.map fun call => call.1.lookups).sum) := by
  intro s j
  obtain ⟨hstart, hhits₀, hmisses₀, htimeouts₀, herrors₀⟩ := recorded_create hc
  obtain ⟨hbooked, hunstored⟩ := Cluster.booked_create hc
  have hbalanced : Balanced { cluster := c } := ⟨hbooked, by simp, by simp [hunstored]⟩
  obtain ⟨-, hreturned, hunderway, hadds⟩ := hstart.journal hbalanced steps
  rw [List.append_nil] at hadds
  have hhits : s.cluster.stats.hits = j.outcomes.countP Outcome.isHit :=
    hadds.hits.trans (by rw [hhits₀, Nat.zero_add])
  have hmisses : s.cluster.stats.misses = j.outcomes.countP Outcome.isInvalid +
      j.outcomes.countP Outcome.isAbsent + j.outcomes.countP Outcome.isFailedLookup :=
    hadds.misses.trans (by rw [hmisses₀, Nat.zero_add])
  have htimeouts : s.cluster.stats.timeouts = j.outcomes.countP Outcome.timedOut :=
    hadds.timeouts.trans (by rw [htimeouts₀, Nat.zero_add])
  have herrors : s.cluster.stats.errors = j.outcomes.countP Outcome.erred :=
    hadds.errors.trans (by rw [herrors₀, Nat.zero_add])
  refine ⟨hreturned, hhits, hmisses, ?_, htimeouts, herrors, fun hidle hkept hresults => ?_⟩
  · rw [htimeouts, herrors, Outcome.countP_failed]
  · have hnone : j.underway = [] := by
      rw [hidle] at hunderway
      exact List.forall₂_nil_left_iff.mp hunderway
    have hall : j.outcomes = j.returned.flatten := by
      simp [Journal.outcomes, hnone, abandoned_journal hkept, j]
    refine ⟨hall, ?_⟩
    rw [hhits, hmisses, Outcome.countP_isLookup, hall]
    exact countP_lookups hreturned hresults

/-- A node with room for one command. Of the lookups one finds a value, two are of
no key, one meets a full queue and one has its time limit run out; then the
answer to a delete does not come in time, and a flush finds no server. -/
theorem lookups_accounted_mixed :
    let settings : RemoteSettings := ⟨[⟨"a", 1⟩], .ofSeconds 1, 1, none, none⟩
    let c : Cluster := { timeout := settings.timeout, nodes := [Node.create settings ⟨"a", 1⟩] }
    let steps : List Step :=
      [.start 0 (.get ""), .start 0 (.getMany ["k", "", "k"]), .resume 0 false, .resume 0 false,
        .resume 0 false, .worker 0 .take, .worker 0 (.dial .accepted),
        .worker 0 (.exchange (.values [⟨#[7]⟩])), .resume 0 false, .start 0 (.get "k"),
        .resume 0 true, .worker 0 .take, .start 0 (.delete "k"), .worker 0 .take, .worker 0 .expire,
        .resume 0 false, .start 0 .clear, .worker 0 .take, .worker 0 (.dial (.refused "no")),
        .resume 0 false]
    let s := System.after { cluster := c } steps
    s.underway = [] ∧ s.returned.length = 5 ∧ s.cluster.stats.hits = 1 ∧
      s.cluster.stats.timeouts = 2 ∧ s.cluster.stats.errors = 2 ∧
      s.cluster.stats.hits + s.cluster.stats.misses = 5 := by
  intro settings c steps s
  have hc : Cluster.create settings = .ok c := rfl
  have hidle : s.underway = [] := by
    rw [← List.length_eq_zero_iff]
    decide +kernel
  have hkept : ∀ k, .abandon k ∉ steps := by simp [steps]
  have hresults : ∀ call e, (call, Result.error e) ∈ s.returned → e.isIllegalState = false := by
    have hnone : s.returned.any (fun call => call.2 matches .error _) = false := by decide +kernel
    intro call e hmem
    simpa using List.any_eq_false.mp hnone _ hmem
  obtain ⟨-, hhits, -, -, htimeouts, herrors, hquiet⟩ := lookups_accounted hc steps
  have hlookups : (s.returned.map fun call => call.1.lookups).sum = 5 := by decide +kernel
  refine ⟨hidle, by decide +kernel, hhits.trans ?_, htimeouts.trans ?_, herrors.trans ?_, ?_⟩
  · decide +kernel
  · decide +kernel
  · decide +kernel
  · exact ((hquiet hidle hkept hresults).2).trans hlookups

end System

end CacheService.Remote
