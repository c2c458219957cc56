import CacheService.Backend
import CacheService.Proofs.Remote.Ending
import CacheService.Remote.Server

/-!
# CacheService.Proofs.Backend

The calls of a backend as values (`Backend.Call`, `Backend.perform`), and what a stop
makes of them. Every backend that is open can be stopped (`stop_of_isOpen`), and only a
stop closes it (`isOpen_perform`).

One that has been stopped refuses what it is asked (`refusal?`): a local one everything,
a remote one everything but a cleanup, which is left to the servers and finds nothing; a
disabled backend keeps no state, so a stop is nothing to it. Whatever the answer
(`answerStopped`), nothing changes any more (`perform_of_isEnded`), but for answers of
servers for which nobody waits (`forget`).
-/

namespace CacheService

namespace Backend

open Remote (Found Live Network)

/-! ## Calls -/

/-- What is asked of a backend. -/
inductive Call
  | get (key : String)
  | getMany (keys : List String)
  | set (key : String) (value : ByteArray) (ttl : UInt32)
  | delete (key : String)
  | clear
  | stop
  | cleanup

/-- What a backend answers that does not refuse. -/
inductive Reply
  | value (value : Option ByteArray)
  | found (values : Found)
  | done
  | removed (count : Nat)

variable {σ : Type} [Network σ]

/-- The answer of a call, with the backend and its surroundings after it. -/
def perform (b : Backend) (w : World σ) : Call → Except CacheError Reply × Backend × World σ
  | .get key => ((b.get w key).1.map .value, (b.get w key).2)
  | .getMany keys => ((b.getMany w keys).1.map .found, (b.getMany w keys).2)
  | .set key value ttl => ((b.set w key value ttl).1.map fun _ => .done, (b.set w key value ttl).2)
  | .delete key => ((b.delete w key).1.map fun _ => .done, (b.delete w key).2)
  | .clear => ((b.clear w).1.map fun _ => .done, (b.clear w).2)
  | .stop => ((b.stop w).1.map fun _ => .done, (b.stop w).2)
  | .cleanup => ((b.cleanup w).1.map .removed, (b.cleanup w).2)

/-- The backend after some calls, each in the surroundings it finds. -/
def after (b : Backend) (calls : List (World σ × Call)) : Backend :=
  calls.foldl (fun b p => (b.perform p.1 p.2).2.1) b

/-- Whether the backend has not been stopped; a disabled one cannot be. -/
def isOpen : Backend → Bool
  | .localTiers store => store.isSome
  | .remote c => !c.stopped
  | .disabled => true

/-- A call as one of the remote client, which leaves cleaning up to the servers. -/
def Call.remote? : Call → Option Remote.Cluster.Call
  | .get key => some (.get key)
  | .getMany keys => some (.getMany keys)
  | .set key value ttl => some (.set key value ttl)
  | .delete key => some (.delete key)
  | .clear => some .clear
  | .stop => some .stop
  | .cleanup => none

/-- A client in its surroundings. -/
def live (c : Remote.Cluster) (w : World σ) : Live σ :=
  { cluster := c, network := w.network, notices := w.notices }

omit [Network σ] in
@[simp] theorem cluster_live (c : Remote.Cluster) (w : World σ) : (live c w).cluster = c := rfl

/-- What a result of the remote client is to the caller of a backend. -/
def Call.read (call : Call) (r : Remote.Cluster.Result) : Except CacheError Reply :=
  match call with
  | .get _ => (valueOf r).map .value
  | .getMany _ => (foundOf r).map .found
  | .set .. | .delete _ | .clear | .stop | .cleanup => (unitOf r).map fun _ => .done

/-- An error is one to every caller. -/
@[simp] theorem Call.read_error (call : Call) (e : CacheError) :
    call.read (.error e) = .error e := by
  cases call <;> rfl

/-- A remote backend passes a call on to its client. -/
theorem perform_remote (c : Remote.Cluster) (w : World σ) {call : Call}
    {asked : Remote.Cluster.Call}
    (h : call.remote? = some asked) :
    (Backend.remote c).perform w call =
      (call.read ((live c w).call w.unixSeconds asked).1,
        .remote ((live c w).call w.unixSeconds asked).2.cluster,
        { w with
          network := ((live c w).call w.unixSeconds asked).2.network
          notices := ((live c w).call w.unixSeconds asked).2.notices }) := by
  cases call with
  | cleanup => contradiction
  | _ =>
      obtain rfl := Option.some.inj h
      rfl

/-- **Only a stop** closes a backend: other calls leave `isOpen` as it is. -/
theorem isOpen_perform (b : Backend) (w : World σ) {call : Call} (hruns : call ≠ .stop) :
    (b.perform w call).2.1.isOpen = b.isOpen := by
  cases b with
  | localTiers store =>
      cases call with
      | stop => contradiction
      | _ => cases store <;> rfl
  | remote c =>
      cases hasked : call.remote? with
      | none =>
          cases call with
          | cleanup => rfl
          | _ => contradiction
      | some asked =>
          have hcall : asked ≠ .stop := by
            rintro rfl
            cases call <;> first | contradiction | cases hasked
          rw [perform_remote c w hasked]
          simpa [isOpen] using Live.stopped_call (live c w) w.unixSeconds hcall
  | disabled => cases call <;> rfl

/-- **A backend that is open** can be stopped. -/
theorem stop_of_isOpen {b : Backend} (h : b.isOpen = true) (w : World σ) :
    (b.stop w).1 = .ok () := by
  cases b with
  | localTiers store =>
      cases store with
      | none => contradiction
      | some s => rfl
  | remote c =>
      have hrunning : (live c w).cluster.stopped = false := by simpa [isOpen] using h
      have hdone : ((live c w).call w.unixSeconds .stop).1 = .done := Live.call_stop hrunning _
      show unitOf ((live c w).call w.unixSeconds .stop).1 = .ok ()
      rw [hdone]
      rfl
  | disabled => rfl

/-- A backend that has just been built `isOpen`. -/
theorem isOpen_ofConfig {config : BackendConfig} {b : Backend} (h : ofConfig config = .ok b) :
    b.isOpen = true := by
  cases config with
  | localTiers plan =>
      obtain rfl := Except.ok.inj h
      rfl
  | remote settings =>
      have hcreate : (Remote.Cluster.create settings).map remote = .ok b := h
      unfold Remote.Cluster.create at hcreate
      split at hcreate
      · contradiction
      · obtain rfl := Except.ok.inj hcreate
        rfl
  | disabled =>
      obtain rfl := Except.ok.inj h
      rfl

/-! ## After a stop -/

/-- Whether there is nothing left to stop. -/
def isEnded : Backend → Bool
  | .disabled => true
  | b => !b.isOpen

/-- The error with which a stopped backend refuses a call, if it does. -/
def refusal? : Backend → Call → Option StateFault
  | .localTiers _, _ => some .localStopped
  | .remote _, .cleanup => none
  | .remote _, .stop => some .remoteStoppedTwice
  | .remote _, _ => some .remoteStopped
  | .disabled, _ => none

/-- What a backend answers in which nothing is stored. -/
def Call.idle : Call → Reply
  | .get _ => .value none
  | .getMany _ => .found {}
  | .set .. | .delete _ | .clear | .stop => .done
  | .cleanup => .removed 0

/-- What a stopped backend answers: its `refusal?`, or what one without values does. -/
def answerStopped (b : Backend) (call : Call) : Except CacheError Reply :=
  match b.refusal? call with
  | some fault => .error (.illegalState fault)
  | none => .ok call.idle

/-- The backend without the answers of servers for which nobody waits. -/
def forget : Backend → Backend
  | .remote c => .remote c.forgetAnswers
  | b => b

/-- `forget` neither stops nor opens a backend. -/
theorem isEnded_forget (b : Backend) : b.forget.isEnded = b.isEnded := by cases b <;> rfl

/-- `forget` leaves the counters. -/
theorem stats_forget (b : Backend) : b.forget.stats = b.stats := by cases b <;> rfl

theorem answerStopped_forget (b : Backend) : b.forget.answerStopped = b.answerStopped := by
  funext call
  cases b <;> cases call <;> rfl

/-- The kind of a backend decides what it answers once it is stopped, and no call
changes that. -/
theorem answerStopped_perform (b : Backend) (w : World σ) (call : Call) :
    (b.perform w call).2.1.answerStopped = b.answerStopped := by
  funext later
  cases b with
  | localTiers store => cases store <;> cases call <;> rfl
  | remote c => cases call <;> cases later <;> rfl
  | disabled => cases call <;> rfl

/-- A stop leaves nothing to stop (`isEnded`), whatever it returns. -/
theorem isEnded_stop (b : Backend) (w : World σ) : (b.perform w .stop).2.1.isEnded = true := by
  cases b with
  | localTiers store => cases store <;> rfl
  | remote c =>
      rw [perform_remote c w rfl]
      simpa [isEnded, isOpen] using Live.stopped_call_stop (live c w) w.unixSeconds
  | disabled => rfl

/-- **A stopped backend** answers as `answerStopped` says, and nothing changes. -/
theorem perform_of_isEnded {b : Backend} (h : b.isEnded = true) (w : World σ) (call : Call) :
    (b.perform w call).1 = b.answerStopped call ∧ (b.perform w call).2.1.forget = b.forget ∧
      (b.perform w call).2.2 = w := by
  cases b with
  | localTiers store =>
      cases store with
      | none => cases call <;> exact ⟨rfl, rfl, rfl⟩
      | some s => contradiction
  | remote c =>
      have hstopped : (live c w).cluster.stopped = true := by simpa [isEnded, isOpen] using h
      cases hasked : call.remote? with
      | none =>
          cases call with
          | cleanup => exact ⟨rfl, rfl, rfl⟩
          | _ => contradiction
      | some asked =>
          have hcall : asked ≠ .awaitWrites := by
            rintro rfl
            cases call <;> cases hasked
          rw [perform_remote c w hasked, Live.call_of_stopped hstopped _ hcall, Call.read_error]
          refine ⟨?_, rfl, rfl⟩
          cases call with
          | cleanup => contradiction
          | _ =>
              obtain rfl := Option.some.inj hasked
              rfl
  | disabled => cases call <;> exact ⟨rfl, rfl, rfl⟩

/-- Calls leave a stopped backend as it is, but for what it may `forget`. -/
theorem forget_after {b : Backend} (h : b.isEnded = true) (calls : List (World σ × Call)) :
    (b.after calls).forget = b.forget := by
  induction calls generalizing b with
  | nil => rfl
  | cons p calls ih =>
      have hsame : (b.perform p.1 p.2).2.1.forget = b.forget := (perform_of_isEnded h p.1 p.2).2.1
      have hended : (b.perform p.1 p.2).2.1.isEnded = true := by
        rw [← isEnded_forget, hsame, isEnded_forget, h]
      exact (ih hended).trans hsame

/-- **What a stopped backend refuses.** Take any backend, whatever has become of it,
and stop it. However many calls come after that, each is answered as the kind of the
backend says: a local one refuses all, a remote one all but a cleanup, and a disabled
one none; what is refused is an error of the state, and what is not finds nothing.
The backend stays as the stop left it, with its counters, and nothing is sent or
reported. A remote client that is stopped while other calls are under way refuses in
the same way every call that starts later, whatever its workers still do. -/
theorem refuses_after_stop (σ : Type) [Network σ] :
    (∀ (b : Backend) (w : World σ) (later : List (World σ × Call)) (now : World σ) (call : Call),
      let stopped := (b.perform w .stop).2.1
      let next := (stopped.after later).perform now call
      next.1 = b.answerStopped call ∧ next.2.1.forget = stopped.forget ∧
        next.2.1.stats = stopped.stats ∧ next.2.2 = now) ∧
    ∀ (s : Remote.System) (unixSeconds unixSeconds' : Int) (later : List Remote.Step)
      (call : Remote.Cluster.Call), call ≠ .awaitWrites →
      let stopped := (s.step (.start unixSeconds .stop)).after later
      stopped.step (.start unixSeconds' call) = { stopped with
        cluster := stopped.fresh
        returned := stopped.returned ++
          [(call, .error (.illegalState (Remote.System.refusal call)))] } := by
  refine ⟨fun b w later now call => ?_, fun s unixSeconds unixSeconds' later call hcall => ?_⟩
  · intro stopped next
    have hended : stopped.isEnded = true := isEnded_stop b w
    have hafter : (stopped.after later).forget = stopped.forget := forget_after hended later
    have hended' : (stopped.after later).isEnded = true := by
      rw [← isEnded_forget, hafter, isEnded_forget, hended]
    obtain ⟨hanswer, hsame, hworld⟩ := perform_of_isEnded hended' now call
    have hforget : next.2.1.forget = stopped.forget := hsame.trans hafter
    refine ⟨?_, hforget, ?_, hworld⟩
    · rw [hanswer, ← answerStopped_forget, hafter, answerStopped_forget, answerStopped_perform]
    · rw [← stats_forget, hforget, stats_forget]
  · intro stopped
    have hstopped : (s.step (.start unixSeconds .stop)).cluster.stopped = true := by
      rw [Remote.System.step, Remote.System.cluster_turned]
      exact Remote.Cluster.stopped_startStop s.fresh
    exact Remote.System.step_of_stopped
      (Remote.System.stopped_after hstopped later) unixSeconds' hcall

/-- A write that waits for its worker when the client is stopped. Both the backend and
the client refuse what is asked of them after the stop. -/
theorem refuses_after_stop_pending :
    let settings : RemoteSettings := ⟨[⟨"a", 1⟩], .ofSeconds 1, 4, none, none⟩
    let c : Remote.Cluster :=
      { timeout := settings.timeout, nodes := [Remote.Node.create settings ⟨"a", 1⟩] }
    let w : World Remote.ServerFarm :=
      { clock := 0, network := { servers := [{ address := ⟨"a", 1⟩ }] } }
    let b : Backend := ((Backend.remote c).perform w (.set "k" ⟨#[7]⟩ 0)).2.1
    let stopped : Backend := (b.perform w .stop).2.1
    let s : Remote.System := Remote.System.after { cluster := c } [.start 0 (.set "k" ⟨#[7]⟩ 0)]
    let stopping : Remote.System := s.step (.start 0 .stop)
    ((stopped.after [(w, .stop), (w, .cleanup)]).perform w (.get "k")).1 =
        .error (.illegalState .remoteStopped) ∧
      (stopping.after [.worker 0 .take]).step (.start 0 .clear) =
        { stopping.after [.worker 0 .take] with
          cluster := (stopping.after [.worker 0 .take]).fresh
          returned := (stopping.after [.worker 0 .take]).returned ++
            [(.clear, .error (.illegalState .remoteStopped))] } := by
  intro settings c w b stopped s stopping
  obtain ⟨hcalls, hinterleaved⟩ := refuses_after_stop Remote.ServerFarm
  exact ⟨(hcalls b w [(w, .stop), (w, .cleanup)] w (.get "k")).1,
    hinterleaved s 0 0 [.worker 0 .take] .clear (by simp)⟩

/-- Not every call is refused: a remote backend that has been stopped without an error
answers a cleanup, and a disabled one answers a read. -/
theorem cleanup_after_stop :
    let settings : RemoteSettings := ⟨[⟨"a", 1⟩], .ofSeconds 1, 4, none, none⟩
    let w : World Remote.ServerFarm :=
      { clock := 0, network := { servers := [{ address := ⟨"a", 1⟩ }] } }
    let remote : Backend := .remote
      { timeout := settings.timeout, nodes := [Remote.Node.create settings ⟨"a", 1⟩] }
    let stopped : Backend := (remote.perform w .stop).2.1
    let off : Backend := (Backend.disabled.perform w .stop).2.1
    ofConfig (.remote settings) = .ok remote ∧
      (remote.perform w .stop).1 = .ok .done ∧ (stopped.perform w .cleanup).1 = .ok (.removed 0) ∧
      (Backend.disabled.perform w .stop).1 = .ok .done ∧
      (off.perform w (.get "k")).1 = .ok (.value none) :=
  ⟨rfl, rfl, rfl, rfl, rfl⟩

end Backend

end CacheService
