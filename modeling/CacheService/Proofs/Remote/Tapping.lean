import CacheService.Proofs.Remote.Connections

/-!
# CacheService.Proofs.Remote.Tapping

That a record says what is sent. Any `Network` can be tapped: it answers as before, and
beside it is kept what goes over the wire of the node that runs on it (`Tapped`). A
worker that runs its queue on a tapped network leaves on the tap just what is recorded
of its steps, so what holds of every record holds of what goes over the network.

* `Node.untapped` — the tap changes nothing for the worker (`Node.untapped_runQueue`).
* `Recorded.Keeps` — acts lead from a record to what a run leaves behind, one lemma for
  each function that runs a worker (`Recorded.Sound.keeps_runQueue`).
* `orderly_runQueue` — the connections on the tap are `Connection.Orderly`.
-/

namespace CacheService.Remote

/-! ## Tapped networks -/

/-- The wire after an attempt to connect. -/
def Wire.dialed (w : Wire) : Dial → Wire
  | .accepted => w.carry .opened
  | .refused _ | .silence => w

/-- The wire after a request has been sent and answered, or met with `silence`. -/
def Wire.exchanged (w : Wire) (request : Request) : Answer → Wire
  | .silence => w.carry (.sent request)
  | answer => (w.carry (.sent request)).carry (.ended answer)

/-- A network with what has gone over the wire of the node that runs on it. -/
structure Tapped (σ : Type) where
  network : σ
  wire : Wire := {}

variable {σ : Type}

instance [Network σ] : Network (Tapped σ) where
  dial t i address :=
    let heard := Network.dial t.network i address
    (heard.1, { network := heard.2, wire := t.wire.dialed heard.1 })
  exchange t i request :=
    let heard := Network.exchange t.network i request
    (heard.1, { network := heard.2, wire := t.wire.exchanged request heard.1 })

/-- A tapped network dials as the network itself does. -/
theorem dial_tapped [Network σ] (t : Tapped σ) (i : Nat) (address : Address) :
    Network.dial t i address = ((Network.dial t.network i address).1,
      { network := (Network.dial t.network i address).2
        wire := t.wire.dialed (Network.dial t.network i address).1 }) := rfl

/-- It answers as the network itself does. -/
theorem exchange_tapped [Network σ] (t : Tapped σ) (i : Nat) (request : Request) :
    Network.exchange t i request = ((Network.exchange t.network i request).1,
      { network := (Network.exchange t.network i request).2
        wire := t.wire.exchanged request (Network.exchange t.network i request).1 }) := rfl

/-! ## Running behind a tap -/

/-- A run on a `Tapped` network as one on the network itself. -/
def untapped (run : Node × List Event × Tapped σ) : Node × List Event × σ :=
  (run.1, run.2.1, run.2.2.network)

/-- Events that come first make no difference. -/
theorem untapped_append (events : List Event) {run : Node × List Event × Tapped σ}
    {plain : Node × List Event × σ} (h : untapped run = plain) :
    untapped (run.1, events ++ run.2.1, run.2.2) =
      (plain.1, events ++ plain.2.1, plain.2.2) := by
  subst h
  rfl

namespace Node

variable [Network σ] (i : Nat) (wanted : Ticket → Bool) (n : Node) (t : Tapped σ)

theorem untapped_runExchange : untapped (n.runExchange i t) = n.runExchange i t.network := by
  unfold runExchange
  cases n.worker with
  | exchanging c =>
      dsimp only
      cases c.request? with
      | none => rfl
      | some request =>
          dsimp only
          rw [exchange_tapped]
          obtain ⟨answer, net⟩ := Network.exchange t.network i request
          cases answer <;> rfl
  | _ => rfl

theorem untapped_runLogin : untapped (n.runLogin i t) = n.runLogin i t.network := by
  unfold runLogin
  split
  · dsimp only
    rw [exchange_tapped]
    obtain ⟨answer, net⟩ := Network.exchange t.network i _
    cases answer with
    | silence => rfl
    | _ => exact untapped_append _ (untapped_runExchange i _ _)
  · exact untapped_runExchange i n t

theorem untapped_runDial : untapped (n.runDial i t) = n.runDial i t.network := by
  unfold runDial
  split
  · rw [dial_tapped]
    obtain ⟨outcome, net⟩ := Network.dial t.network i _
    cases outcome with
    | silence => rfl
    | _ => exact untapped_append _ (untapped_runLogin i _ _)
  · exact untapped_runExchange i n t

theorem untapped_runNext : untapped (n.runNext i wanted t) = n.runNext i wanted t.network := by
  unfold runNext
  split
  · exact untapped_append _ (untapped_runDial i _ _)
  · rfl

/-- The tap changes nothing for the worker. -/
theorem untapped_runQueue (rounds : Nat) :
    untapped (n.runQueue i wanted rounds t) = n.runQueue i wanted rounds t.network := by
  induction rounds generalizing n t with
  | zero => rfl
  | succ rounds ih =>
      unfold runQueue
      rw [← untapped_runNext]
      exact untapped_append _ (ih _ _)

end Node

/-! ## What a tap keeps -/

/-- The record of a node that runs on a tapped network. It has the request that the
node is about to send as sent. -/
def Tapped.record (t : Tapped σ) (n : Node) : Recorded where
  node := n
  wire := n.awaiting t.wire

namespace Recorded

variable {n : Node} {t : Tapped σ} {r r' : Recorded} {run : Node × List Event × Tapped σ}
  {credentials : Option Credentials}

/-- Acts lead from a record to the node and the wire that a run leaves behind. -/
def Keeps (r : Recorded) (run : Node × List Event × Tapped σ) : Prop :=
  ∃ acts, r.after acts = { node := run.1, wire := run.2.2.wire }

/-- A step of the worker may come before the acts. -/
theorem Keeps.work {wanted : Ticket → Bool} {step : WorkerStep} (h : r'.Keeps run)
    (hwork : r.work wanted step = r') : r.Keeps run := by
  obtain ⟨acts, hacts⟩ := h
  exact ⟨.work wanted step :: acts, by rw [after_cons, act, hwork, hacts]⟩

/-- A node that waits for nothing has sent nothing that is not on the tap. -/
theorem record_of_idle (h : n.awaited = none) : t.record n = { node := n, wire := t.wire } := by
  simp [Tapped.record, Node.awaiting, h]

variable [Network σ]

/-- The worker is about to send its command, or has none to send. -/
theorem Sound.keeps_runExchange (h : (t.record n).Sound credentials)
    (hready : ∀ c, n.worker ≠ .loggingIn c) (i : Nat) :
    (t.record n).Keeps (n.runExchange i t) := by
  unfold Node.runExchange
  cases hworker : n.worker with
  | exchanging c =>
      obtain ⟨-, request, k, hrequest, -⟩ := h.of_exchanging hworker
      have hsent : t.record n = ⟨n, t.wire.carry (.sent request)⟩ := by
        simp [Tapped.record, Node.awaiting, Node.awaited, hworker, hrequest]
      have hanswered (answer : Answer) : (t.record n).work (fun _ => true) (.exchange answer) =
          ⟨(n.exchanged c (request.read answer)).1,
            (t.wire.carry (.sent request)).carry (.ended answer)⟩ := by
        simp [hsent, Recorded.work, Node.advance, Node.signals, hworker, hrequest]
      simp only [hrequest]
      rw [exchange_tapped]
      obtain ⟨answer, net⟩ := Network.exchange t.network i request
      cases answer with
      | silence => exact ⟨[], hsent⟩
      | _ => exact ⟨[.work (fun _ => true) (.exchange _)], hanswered _⟩
  | loggingIn c => exact absurd hworker (hready c)
  | _ => exact ⟨[], record_of_idle (by simp [Node.awaited, hworker])⟩

/-- The worker is about to log in, or has done so. -/
theorem Sound.keeps_runLogin (h : (t.record n).Sound credentials) (i : Nat) :
    (t.record n).Keeps (n.runLogin i t) := by
  unfold Node.runLogin
  split
  · rename_i c login hworker hlogin
    have hsent : t.record n = ⟨n, t.wire.carry (.sent (Node.loginRequest login))⟩ := by
      simp [Tapped.record, Node.awaiting, Node.awaited, hworker, hlogin]
    -- The login is answered, and the worker goes on.
    have hanswered (answer : Answer) (net : σ) : (t.record n).Keeps
        ((n.loggedIn c login.user ((Node.loginRequest login).read answer)).1.runExchange i
          ⟨net, (t.wire.carry (.sent (Node.loginRequest login))).carry (.ended answer)⟩) := by
      have hwork : (t.record n).work (fun _ => true) (.login answer) = Tapped.record
          ⟨net, (t.wire.carry (.sent (Node.loginRequest login))).carry (.ended answer)⟩
          (n.loggedIn c login.user ((Node.loginRequest login).read answer)).1 := by
        rw [hsent]
        simp [Tapped.record, Recorded.work, Node.advance, Node.signals, Node.awaiting,
          hworker, hlogin]
      have hsound := hwork ▸ h.work (fun _ => true) (.login answer)
      refine (hsound.keeps_runExchange (fun c' => ?_) i).work hwork
      unfold Node.loggedIn
      cases (Node.loginRequest login).read answer <;> simp [Node.connect, Node.fail, Node.finish_eq]
    dsimp only
    rw [exchange_tapped]
    obtain ⟨answer, net⟩ := Network.exchange t.network i _
    cases answer with
    | silence => exact ⟨[], hsent⟩
    | _ => exact hanswered _ net
  · rename_i hother
    refine h.keeps_runExchange (fun c hworker => ?_) i
    obtain ⟨-, login, hlogin, -⟩ := h.of_loggingIn hworker
    exact hother c login hworker (h.configured.trans hlogin)

/-- The worker is about to connect, or to send its command, or has none. -/
theorem Sound.keeps_runDial (h : (t.record n).Sound credentials)
    (hready : ∀ c, n.worker ≠ .loggingIn c) (i : Nat) : (t.record n).Keeps (n.runDial i t) := by
  unfold Node.runDial
  split
  · rename_i c hworker
    have hidle : t.record n = ⟨n, t.wire⟩ := record_of_idle (by simp [Node.awaited, hworker])
    have hdialed {outcome : Dial} (houtcome : outcome ≠ .silence) (net : σ) : (t.record n).Keeps
        ((n.dialed c outcome).1.runLogin i ⟨net, t.wire.dialed outcome⟩) := by
      have hwork : (t.record n).work (fun _ => true) (.dial outcome) =
          Tapped.record ⟨net, t.wire.dialed outcome⟩ (n.dialed c outcome).1 := by
        rw [hidle]
        cases outcome with
        | accepted =>
            simp [Tapped.record, Recorded.work, Node.advance, Node.signals, Node.awaiting,
              Wire.dialed, hworker]
        | refused reason =>
            simp [Tapped.record, Recorded.work, Node.advance, Node.signals, Node.awaiting,
              Wire.dialed, Node.dialed, Node.fail, Node.finish_eq, Node.awaited, hworker]
        | silence => contradiction
      have hsound := hwork ▸ h.work (fun _ => true) (.dial outcome)
      exact (hsound.keeps_runLogin i).work hwork
    rw [dial_tapped]
    obtain ⟨outcome, net⟩ := Network.dial t.network i _
    cases outcome with
    | silence => exact ⟨[], hidle⟩
    | _ => exact hdialed (by simp) net
  · exact h.keeps_runExchange hready i

/-- **One command** that is run on a network. -/
theorem Sound.keeps_runNext (h : Sound credentials ⟨n, t.wire⟩) (i : Nat) (wanted : Ticket → Bool) :
    Recorded.Keeps ⟨n, t.wire⟩ (n.runNext i wanted t) := by
  unfold Node.runNext
  split
  · rename_i hworker
    have hwork : Recorded.work ⟨n, t.wire⟩ wanted .take = t.record (n.takeNext wanted).1 :=
      work_take hworker wanted
    have hsound := hwork ▸ h.work wanted .take
    refine (hsound.keeps_runDial (fun c => ?_) i).work hwork
    obtain ⟨-, hrests | ⟨c', hdials⟩⟩ := Node.takeNext_cases hworker wanted
    · simp [hrests]
    · rw [hdials]
      split <;> simp
  · exact ⟨[], rfl⟩

/-- **A worker that runs its queue** (`runQueue`) on any network sends and hears just
what is recorded of its steps. -/
theorem Sound.keeps_runQueue (h : Sound credentials ⟨n, t.wire⟩) (i : Nat) (wanted : Ticket → Bool)
    (rounds : Nat) : Recorded.Keeps ⟨n, t.wire⟩ (n.runQueue i wanted rounds t) := by
  induction rounds generalizing n t with
  | zero => exact ⟨[.work wanted .retire], rfl⟩
  | succ rounds ih =>
      obtain ⟨acts, hacts⟩ := h.keeps_runNext i wanted
      have hsound := hacts ▸ h.after acts
      obtain ⟨acts', hacts'⟩ := ih hsound
      refine ⟨acts ++ acts', ?_⟩
      have hboth : Recorded.after ⟨n, t.wire⟩ (acts ++ acts') =
          (Recorded.after ⟨n, t.wire⟩ acts).after acts' := List.foldl_append ..
      rw [hboth, hacts, hacts']
      rfl

end Recorded

/-- **What goes over any network** is in order: after any run of a node, let its
worker run the queue there, behind a tap that has heard all so far. On every
connection the login is the first request, others follow only if it has been
acknowledged, and nothing is sent after an exchange that ends a connection. -/
theorem orderly_runQueue [Network σ] (settings : RemoteSettings) (address : Address)
    (acts : List Act) (i : Nat) (wanted : Ticket → Bool) (rounds : Nat) (net : σ) :
    let r := Recorded.after { node := Node.create settings address } acts
    let tapped : Tapped σ := { network := net, wire := r.wire }
    ∀ k ∈ (r.node.runQueue i wanted rounds tapped).2.2.wire.connections,
      k.Orderly settings.credentials := by
  intro r tapped
  have hsound : r.Sound settings.credentials := (Recorded.sound_create settings address).after acts
  have hkeeps : Recorded.Keeps ⟨r.node, tapped.wire⟩ (r.node.runQueue i wanted rounds tapped) :=
    Recorded.Sound.keeps_runQueue hsound i wanted rounds
  obtain ⟨acts', hacts⟩ := hkeeps
  exact (hacts ▸ hsound.after acts').orderly

end CacheService.Remote
