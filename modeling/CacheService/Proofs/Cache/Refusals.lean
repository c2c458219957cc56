import CacheService.Proofs.Cache.Lifecycle
import CacheService.Proofs.Outcome

/-!
# CacheService.Proofs.Cache.Refusals

Writes that fail. Whatever keeps a write from being done is found out before anything is
stored or queued, so a write either is taken or changes nothing, at each layer:

* the remote client (`Cluster.start_set_cases`), whose write is queued, lost, or refused
  without a trace;
* a backend (`Backend.set_cases`), which refuses a write only if it `IsClosedTo` the
  key;
* a cache (`Cache.set_cases`), whose backend may `forget` answers for which nobody
  waits.

A backend that has just been built takes every write (`not_isClosedTo_ofConfig`); hence
a write that fails has not built one.
-/

namespace CacheService

/-! ## The remote client -/

namespace Remote

/-- A write that a node refuses as stopped is refused because the node is closed. -/
theorem Node.closed_of_submitWrite {n : Node} {key : String} {value : ByteArray} {expiration : Int}
    {e : CacheError} (h : n.submitWrite key value expiration = .error e)
    (he : e.isIllegalState = true) : n.closed = true := by
  rw [submitWrite_eq] at h
  unfold submit at h
  split at h
  · assumption
  · -- an open node refuses for want of a worker or of room only
    split at h
    · obtain rfl := Except.error.inj h
      contradiction
    · contradiction
    · split at h
      · obtain rfl := Except.error.inj h
        contradiction
      · contradiction

namespace Cluster

/-- **A write** returns at once. It is queued or lost, or it is refused without a trace,
because the client has been stopped or the node of the key has. -/
theorem start_set_cases (c : Cluster) (unixSeconds : Int) (key : String) (value : ByteArray)
    (ttl : UInt32) :
    (c.start unixSeconds (.set key value ttl)).next = .inl .done ∨
      (c.stopped = true ∨ ∀ n, c.nodes[c.nodeOf key]? = some n → n.closed = true) ∧
        ∃ e, c.start unixSeconds (.set key value ttl) = .returned c (.error e) [] := by
  cases hstopped : c.stopped with
  | true => exact .inr ⟨.inl rfl, .illegalState .remoteStopped, by simp [start, hstopped]⟩
  | false =>
      have hstart : c.start unixSeconds (.set key value ttl) =
          c.startSet unixSeconds key value ttl := by
        simp [start, hstopped, startRunning]
      rw [hstart]
      unfold startSet
      split
      · exact .inl rfl
      · dsimp only
        split
        · rename_i hnode
          exact .inr ⟨.inr fun n hn => by simp [hnode] at hn, _, rfl⟩
        · rename_i n hnode
          split
          · exact .inl rfl
          · rename_i e hsubmit
            split
            · rename_i he
              refine .inr ⟨.inr fun n' hn' => ?_, e, rfl⟩
              obtain rfl := Option.some.inj (hnode.symm.trans hn')
              exact Node.closed_of_submitWrite hsubmit he
            · exact .inl rfl

end Cluster

end Remote

open Remote (Network)

variable {σ : Type} [Network σ]

/-! ## Backends -/

namespace Backend

/-- Whether a backend takes no write of a key, because it has been stopped or the node of the
key has. -/
def IsClosedTo (b : Backend) (key : String) : Prop :=
  match b with
  | .localTiers store => store = none
  | .remote c => c.stopped = true ∨ ∀ n, c.nodes[c.nodeOf key]? = some n → n.closed = true
  | .disabled => False

/-- A backend that has just been built `IsClosedTo` no key. -/
theorem not_isClosedTo_ofConfig {config : BackendConfig} {b : Backend} (h : ofConfig config = .ok b)
    (key : String) : ¬b.IsClosedTo key := by
  cases config with
  | localTiers plan =>
      obtain rfl := Except.ok.inj h
      exact nofun
  | remote settings =>
      obtain ⟨c, hcreate, rfl⟩ := map_eq_ok.mp h
      obtain ⟨address, hnode⟩ := Remote.Cluster.getElem?_nodeOf_create hcreate key
      rintro (hstopped | hclosed)
      · rw [Remote.Cluster.eq_of_create hcreate] at hstopped
        contradiction
      · have hnew := hclosed _ hnode
        contradiction
  | disabled =>
      obtain rfl := Except.ok.inj h
      exact id

/-- **A write** is taken, or refused without a trace by a backend that `IsClosedTo` the
key. -/
theorem set_cases (b : Backend) (w : World σ) (key : String) (value : ByteArray) (ttl : UInt32) :
    (b.set w key value ttl).1 = .ok () ∨
      b.IsClosedTo key ∧ ∃ e, b.set w key value ttl = (.error e, b.forget, w) := by
  cases b with
  | localTiers store =>
      cases store with
      | none => exact .inr ⟨rfl, _, rfl⟩
      | some s => exact .inl rfl
  | remote c =>
      rcases c.forgetAnswers.start_set_cases w.unixSeconds key value ttl with
        hdone | ⟨hclosed, e, hrefused⟩
      · left
        simp only [set, onCluster, Remote.Live.call, hdone, unitOf]
      · refine .inr ⟨hclosed, e, ?_⟩
        simp only [set, onCluster, Remote.Live.call, hrefused, Remote.Cluster.Turn.returned,
          Remote.Live.report, List.append_nil, unitOf, forget]
  | disabled => exact .inl rfl

end Backend

/-! ## Caches -/

namespace Cache

/-- The cache without the answers of servers for which nobody waits. -/
def forget (c : Cache) : Cache :=
  match c.state with
  | .active b sweep => { c with state := .active b.forget sweep }
  | .uninitialized | .stopped => c

/-- Only a remote backend in use has anything to `forget`. -/
theorem forget_cases (c : Cache) :
    c.forget = c ∨ ∃ cluster sweep, c.state = .active (.remote cluster) sweep ∧
      c.forget = { c with state := .active (.remote cluster.forgetAnswers) sweep } := by
  unfold forget
  cases hstate : c.state with
  | active b sweep =>
      cases b with
      | remote cluster => exact .inr ⟨cluster, sweep, rfl, rfl⟩
      | _ => exact .inl (by simp only [Backend.forget, ← hstate])
  | _ => exact .inl rfl

/-- **A write** is taken, or fails without a trace but for what the cache may `forget`. -/
theorem set_cases {α : Type} (c : Cache) (w : World σ) (codec : Codec α) (key : String) (value : α)
    (ttl : UInt32) :
    (c.set w codec key value ttl).1 = .ok () ∨
      ∃ e, c.set w codec key value ttl = (.error e, c.forget, w) := by
  cases hstate : c.state with
  | uninitialized =>
      have hforget : c.forget = c := by simp only [forget, hstate]
      cases hb : Backend.ofConfig c.config with
      | error e =>
          have hactivate : c.activate w = (.error e, c, w) := by simp only [activate, hstate, hb]
          exact .inr ⟨e, by rw [set_refused hactivate, hforget]⟩
      | ok b =>
          left
          rw [set_built hstate hb]
          unfold set
          cases codec.encode? value with
          | ok bytes =>
              have hset : (b.set (w.tell (buildNotices c.config)) key bytes ttl).1 = .ok () :=
                (b.set_cases (w.tell (buildNotices c.config)) key bytes ttl).resolve_right
                  fun h => Backend.not_isClosedTo_ofConfig hb key h.1
              have hbuilt : (c.built b w).state = .active b (c.newSweep w.timer) := rfl
              simp only [onBackend_active hbuilt, flatten, hset]
          | error e => rfl
  | active b sweep =>
      unfold set
      cases codec.encode? value with
      | ok bytes =>
          simp only [onBackend_active hstate, flatten, forget, hstate]
          rcases b.set_cases w key bytes ttl with htaken | ⟨-, e, hrefused⟩
          · exact .inl htaken
          · exact .inr ⟨e, by rw [hrefused]⟩
      | error e => exact .inl (by simp only [init_active hstate])
  | stopped =>
      have hforget : c.forget = c := by simp only [forget, hstate]
      have hactivate : c.activate w = (.error (.illegalState .cacheStopped), c, w) := by
        simp only [activate, hstate]
      exact .inr ⟨_, by rw [set_refused hactivate, hforget]⟩

end Cache

end CacheService
