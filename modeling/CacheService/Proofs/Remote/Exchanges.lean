import CacheService.Proofs.Remote.Connections

/-!
# CacheService.Proofs.Remote.Exchanges

What an exchange of a command comes to, after any run and for every way in which
it may end. On the regular answer the command succeeds and the worker keeps the
connection; on anything else the command fails, one failure is booked, and the
connection is never used again. A delete is the exception: any answer will do
for it, be it an error or a connection that is lost, and only silence fails it.

* `exchange_outcome`: one exchange, and what later runs can still do with its
  connection;
* `delete_on_lost_connection`: a delete that is lost and goes unnoticed.
-/

namespace CacheService.Remote

/-- The answer with which a step ends an exchange: that of the server, or
`Answer.silence` when the time is up. -/
def WorkerStep.answer? : WorkerStep → Option Answer
  | .exchange answer => some answer
  | .expire => some .silence
  | .take | .dial _ | .login _ | .retire => none

namespace Recorded

variable {r : Recorded} {credentials : Option Credentials} {c : Command} {step : WorkerStep}
  {answer : Answer}

/-- Whatever ends an exchange ends it with an answer (`WorkerStep.answer?`). -/
theorem Sound.ends (h : r.Sound credentials) (hworker : r.node.worker = .exchanging c)
    (hstep : step.answer? = some answer) (wanted : Ticket → Bool) :
    r.work wanted step = r.work wanted (.exchange answer) ∧
      r.node.advance wanted step = r.node.advance wanted (.exchange answer) := by
  cases step with
  | exchange given =>
      obtain rfl : given = answer := Option.some.inj hstep
      exact ⟨rfl, rfl⟩
  | expire =>
      obtain rfl : Answer.silence = answer := Option.some.inj hstep
      exact h.expire_exchanging hworker wanted
  | _ => contradiction

end Recorded

/-- **How an exchange ends**, after any run of a node and for any answer. It is
the last thing that has been sent on the latest connection. Either the command
succeeds and the worker stays connected, or the command fails, with one failure
booked, and nothing more is ever sent on that connection or an earlier one; the
answer alone decides which. So on every connection all requests but the last have
ended in a way for which a connection is kept. -/
theorem exchange_outcome (settings : RemoteSettings) (address : Address) (acts : List Act)
    (wanted : Ticket → Bool) :
    let r := Recorded.after { node := Node.create settings address } acts
    (∀ k ∈ r.wire.connections, ∀ e ∈ k.exchanges.take (k.sent.length - 1),
      keepsConnection e = true) ∧
    ∀ c step answer, r.node.worker = .exchanging c → step.answer? = some answer →
      ∃ request k, c.request? = some request ∧
        r.wire.connections = r.wire.earlier ++ [k] ∧ k.outstanding = some request ∧
        (r.work wanted step).wire.connections = r.wire.earlier ++ [k.hear answer] ∧
        if keepsConnection (request, answer) then
          r.node.Succeeds c (r.node.advance wanted step) ∧
            (r.node.advance wanted step).1.connected = true
        else
          r.node.Fails c (r.node.advance wanted step) ∧
            ∀ later, r.wire.earlier ++ [k.hear answer] <+:
              ((r.work wanted step).after later).wire.connections := by
  intro r
  have hsound : r.Sound settings.credentials := (Recorded.sound_create settings address).after acts
  refine ⟨fun k hk => (hsound.orderly k hk).intact, fun c step answer hworker hstep => ?_⟩
  obtain ⟨hwork, hadvance⟩ := hsound.ends hworker hstep wanted
  obtain ⟨hlinked, request, k, hrequest, hk, hout, -⟩ := hsound.of_exchanging hworker
  have htold : r.node.connected = r.node.linked := hsound.told (by simp [Node.isGone, hworker])
  have hended : (r.work wanted (.exchange answer)).wire.connections =
      r.wire.earlier ++ [k.hear answer] := by
    simp [Recorded.work_exchange hworker hrequest hk, Wire.connections]
  have hexchanged : r.node.advance wanted (.exchange answer) =
      r.node.exchanged c (request.read answer) := by
    simp [Node.advance, hworker, hrequest]
  have hcases := Node.exchanged_cases htold hrequest answer
  rw [← hexchanged] at hcases
  rw [hwork, hadvance]
  refine ⟨request, k, hrequest, by simp [Wire.connections, hk], hout, hended, ?_⟩
  cases hkeeps : keepsConnection (request, answer) with
  | true =>
      have hsucceeds : r.node.Succeeds c (r.node.advance wanted (.exchange answer)) := by
        simpa [hkeeps] using hcases
      exact ⟨hsucceeds, hsucceeds.connected.trans (htold.trans hlinked)⟩
  | false =>
      have hfails : r.node.Fails c (r.node.advance wanted (.exchange answer)) := by
        simpa [hkeeps] using hcases
      have hoffline : (r.work wanted (.exchange answer)).node.isOnline = false :=
        Node.isOnline_of_fails hfails
      refine ⟨hfails, fun later => ?_⟩
      rw [← hended]
      exact ((hsound.work wanted _).final hoffline later).kept

/-- A read whose connection is lost. It fails, and nothing follows it on that
connection. -/
theorem get_on_lost_connection :
    let settings : RemoteSettings := ⟨[⟨"a", 1⟩], .ofSeconds 1, 4, none, none⟩
    let all : Ticket → Bool := fun _ => true
    let acts : List Act := [.issue (.get "k" 0), .work all .take, .work all (.dial .accepted)]
    let r := Recorded.after { node := Node.create settings ⟨"a", 1⟩ } acts
    let lost := r.work all (.exchange .lost)
    r.node.worker = .exchanging (.get "k" 0) ∧ lost.node.failures = 1 ∧
      lost.node.connected = false ∧
      ∀ later, [{ exchanges := [(.get "k", .lost)] }] <+: (lost.after later).wire.connections := by
  intro settings all acts r lost
  have hworker : r.node.worker = .exchanging (.get "k" 0) := rfl
  obtain ⟨request, k, hrequest, hlatest, hout, -, hends⟩ :=
    (exchange_outcome settings ⟨"a", 1⟩ acts all).2 (.get "k" 0) (.exchange .lost) .lost hworker rfl
  obtain rfl : Request.get "k" = request := Option.some.inj hrequest
  have hk : [{ outstanding := some (.get "k") }] = [k] := hlatest
  obtain rfl : { outstanding := some (.get "k") } = k := List.singleton_inj.mp hk
  obtain ⟨hfails, hfinal⟩ := hends
  exact ⟨hworker, hfails.failures, hfails.connected, hfinal⟩

/-- A delete whose connection is lost. The caller is told that it is done, no
failure is booked, and the next read goes out on the same connection. -/
theorem delete_on_lost_connection :
    let settings : RemoteSettings := ⟨[⟨"a", 1⟩], .ofSeconds 1, 4, none, none⟩
    let all : Ticket → Bool := fun _ => true
    let acts : List Act :=
      [.issue (.delete "k" 0), .work all .take, .work all (.dial .accepted), .issue (.get "k" 1)]
    let r := Recorded.after { node := Node.create settings ⟨"a", 1⟩ } acts
    let lost := r.work all (.exchange .lost)
    r.node.worker = .exchanging (.delete "k" 0) ∧ (Request.delete "k").isRegular .lost = false ∧
      (r.node.advance all (.exchange .lost)).2 = [.answered 0 (.ok none)] ∧
      lost.node.failures = 0 ∧ lost.node.connected = true ∧
      (lost.work all .take).wire.connections =
        [{ exchanges := [(.delete "k", .lost)], outstanding := some (.get "k") }] :=
  ⟨rfl, rfl, rfl, rfl, rfl, rfl⟩

end CacheService.Remote
