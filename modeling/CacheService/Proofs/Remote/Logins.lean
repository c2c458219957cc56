import CacheService.Proofs.Remote.Connections

/-!
# CacheService.Proofs.Remote.Logins

The login of a node that has one, through any run. On every connection it is the first
request, and no command is sent before it has been acknowledged there. A command that is
turned away (`Node.turnedAway`), because there is no connection to be had or the login
does not succeed, fails once, and the worker starts over (`Recorded.StartsOver`): what
is executed next goes over a new connection with a login of its own.

`Recorded.login_first` puts this together for every run of a node, from what
`Recorded.Sound` says of its connections.
-/

namespace CacheService.Remote

open Node (loginRequest)

/-- The command that a step turns away: the attempt to connect for it, or the
login before it, does not succeed. -/
def Node.turnedAway (n : Node) (step : WorkerStep) : Option Command :=
  match step, n.worker with
  | .dial (.refused _), .dialing c | .dial .silence, .dialing c => some c
  | .login answer, .loggingIn c => if answer = .status .stored then none else some c
  | .expire, .dialing c | .expire, .loggingIn c => some c
  | _, _ => none

namespace Node

variable {n : Node} {c : Command} {step : WorkerStep}

/-- A command is turned away by a connection that is refused, by a login that is not
acknowledged, or when the time is up for either. -/
theorem turnedAway_cases (h : n.turnedAway step = some c) :
    n.worker = .dialing c ∧ ((∃ reason, step = .dial (.refused reason)) ∨ step = .dial .silence ∨
        step = .expire) ∨
      n.worker = .loggingIn c ∧ ((∃ answer, step = .login answer ∧ answer ≠ .status .stored) ∨
        step = .expire) := by
  unfold turnedAway at h
  split at h
  · rename_i hworker
    obtain rfl := Option.some.inj h
    exact .inl ⟨hworker, .inl ⟨_, rfl⟩⟩
  · rename_i hworker
    obtain rfl := Option.some.inj h
    exact .inl ⟨hworker, .inr (.inl rfl)⟩
  · rename_i answer _ hworker
    split at h
    · contradiction
    · rename_i hanswer
      obtain rfl := Option.some.inj h
      exact .inr ⟨hworker, .inl ⟨answer, rfl, hanswer⟩⟩
  · rename_i hworker
    obtain rfl := Option.some.inj h
    exact .inl ⟨hworker, .inr (.inr rfl)⟩
  · rename_i hworker
    obtain rfl := Option.some.inj h
    exact .inr ⟨hworker, .inr rfl⟩
  · contradiction

end Node

namespace Recorded

variable {r : Recorded} {credentials : Option Credentials} {c : Command} {step : WorkerStep}

/-- The connections so far are of no more use. Until another is opened, a command
that is taken to be executed has to wait for one; and what is executed later is
executed on another, after a login there. -/
structure StartsOver (login : Credentials) (r : Recorded) : Prop where
  final : ∀ later, r.wire.connections <+: (r.after later).wire.connections
  dials : ∀ later wanted, (r.after later).wire.connections = r.wire.connections →
    (r.after later).node.worker = .resting →
      ((r.after later).node.advance wanted .take).1.worker = .resting ∨
        ∃ c, ((r.after later).node.advance wanted .take).1.worker = .dialing c
  executes : ∀ later c, (r.after later).node.worker = .exchanging c →
    ∃ k, (r.after later).wire.latest = some k ∧
      r.wire.connections <+: (r.after later).wire.earlier ∧ k.IsReady (some login)

/-- A worker holds a connection exactly if the latest one `IsReady`. -/
theorem Sound.linked_iff (h : r.Sound credentials) (hruns : r.node.isGone = false) :
    r.node.linked = true ↔ ∃ k, r.wire.latest = some k ∧ k.IsReady credentials := by
  constructor
  · intro hlinked
    have hfits := h.fits
    cases hworker : r.node.worker with
    | resting =>
        simp only [hworker, Worker.Fits] at hfits
        obtain ⟨k, hk, -, hready⟩ := hfits hlinked
        exact ⟨k, hk, hready⟩
    | exchanging c =>
        obtain ⟨-, request, k, -, hk, -, hready⟩ := h.of_exchanging hworker
        exact ⟨k, hk, hready⟩
    | _ => simp [hworker, Worker.Fits, hlinked] at hfits
  · rintro ⟨k, hk, hready⟩
    by_contra hunlinked
    exact h.spent hruns (by simpa using hunlinked) k hk hready

/-- A node of which no connection is in use `StartsOver`. -/
theorem Sound.startsOver {login : Credentials} (h : r.Sound (some login))
    (hoffline : r.node.isOnline = false) : r.StartsOver login := by
  refine ⟨fun later => (h.final hoffline later).kept, fun later wanted hsame hworker => ?_,
    fun later c hworker => ?_⟩
  · have hafter := h.after later
    have hbeyond := h.final hoffline later
    generalize r.after later = r' at hsame hworker hafter hbeyond ⊢
    -- A connection that the worker holds is one more than there were.
    have hunlinked : r'.node.linked = false := by
      by_contra hlinked
      rw [Bool.not_eq_false] at hlinked
      obtain ⟨k, hk, -⟩ := (hafter.linked_iff (by simp [Node.isGone, hworker])).mp hlinked
      have hlength := (hbeyond.unused (by simp [Node.isOnline, hlinked])).length_le
      rw [← hsame] at hlength
      simp only [Wire.connections, hk, List.length_append, Option.toList_some,
        List.length_singleton] at hlength
      omega
    simpa [Node.advance, hworker, hunlinked] using (Node.takeNext_cases hworker wanted).2
  · have hafter := h.after later
    have hbeyond := h.final hoffline later
    generalize r.after later = r' at hworker hafter hbeyond ⊢
    obtain ⟨hlinked, request, k, -, hk, -, hready⟩ := hafter.of_exchanging hworker
    exact ⟨k, hk, hbeyond.unused (by simp [Node.isOnline, hlinked]), hready⟩

/-- A command that is turned away has failed (`Node.Fails`), and nothing was sent for it
but a login where there was a connection. -/
theorem Sound.turnedAway {login : Credentials} (h : r.Sound (some login))
    (haway : r.node.turnedAway step = some c) (wanted : Ticket → Bool) :
    r.node.Fails c (r.node.advance wanted step) ∧
      (r.node.worker = .dialing c ∧ (r.work wanted step).wire = r.wire ∨
        r.node.worker = .loggingIn c ∧ ∃ k, (r.work wanted step).wire.connections =
          r.wire.earlier ++ [k] ∧ k.sent = [loginRequest login]) := by
  obtain ⟨hworker, hstep⟩ | ⟨hworker, hstep⟩ := Node.turnedAway_cases haway
  · have htold : r.node.connected = r.node.linked := h.told (by simp [Node.isGone, hworker])
    have hfail (e : CacheError) : r.node.Fails c (r.node.fail c e) := Node.fails_fail htold c e
    obtain ⟨reason, rfl⟩ | rfl | rfl := hstep
    · refine ⟨?_, .inl ⟨hworker, by simp [Recorded.work, Node.signals]⟩⟩
      simpa [Node.advance, Node.dialed, hworker] using hfail _
    · refine ⟨?_, .inl ⟨hworker, by simp [Recorded.work, Node.signals]⟩⟩
      simpa [Node.advance, Node.dialed, hworker] using hfail _
    · refine ⟨?_, .inl ⟨hworker, by simp [Recorded.work, Node.signals, hworker]⟩⟩
      simpa [Node.advance, Node.expire, hworker] using hfail _
  · have hends {answer : Answer} (hanswer : answer ≠ .status .stored)
        (hsame : r.work wanted step = r.work wanted (.login answer) ∧
          r.node.advance wanted step = r.node.advance wanted (.login answer)) :
        r.node.Fails c (r.node.advance wanted step) ∧ ∃ k,
          (r.work wanted step).wire.connections = r.wire.earlier ++ [k] ∧
            k.sent = [loginRequest login] := by
      obtain ⟨hfails, hwire⟩ := h.refused hworker hanswer wanted
      rw [hsame.1, hsame.2, hwire]
      exact ⟨hfails, _, rfl, rfl⟩
    obtain ⟨answer, rfl, hanswer⟩ | rfl := hstep
    · obtain ⟨hfails, hwire⟩ := hends hanswer ⟨rfl, rfl⟩
      exact ⟨hfails, .inr ⟨hworker, hwire⟩⟩
    · obtain ⟨hfails, hwire⟩ := hends (by simp) (h.expire_loggingIn hworker wanted)
      exact ⟨hfails, .inr ⟨hworker, hwire⟩⟩

end Recorded

/-- **No command before an acknowledged login.** A node that has a login, after
any run: on every connection the login is the first request, and others follow
only if it has been acknowledged; what others are told of the connection is that
the worker has one on which that is so. A command that is turned away fails, with
one failure booked; nothing has been sent for it but the login, if there was a
connection; and the worker starts over. -/
theorem login_first (settings : RemoteSettings) (address : Address) {login : Credentials}
    (hlogin : settings.credentials = some login) (acts : List Act) (wanted : Ticket → Bool) :
    let r := Recorded.after { node := Node.create settings address } acts
    (∀ k ∈ r.wire.connections, ∃ rest, k.sent = loginRequest login :: rest ∧
      (rest ≠ [] → k.exchanges.head? = some (loginRequest login, .status .stored))) ∧
    (r.node.isGone = false → r.node.connected = r.node.linked ∧
      (r.node.linked = true ↔ ∃ k, r.wire.latest = some k ∧ k.IsReady (some login))) ∧
    ∀ step c, r.node.turnedAway step = some c →
      r.node.Fails c (r.node.advance wanted step) ∧
      (r.node.worker = .dialing c ∧ (r.work wanted step).wire = r.wire ∨
        r.node.worker = .loggingIn c ∧ ∃ k, (r.work wanted step).wire.connections =
          r.wire.earlier ++ [k] ∧ k.sent = [loginRequest login]) ∧
      (r.work wanted step).StartsOver login := by
  intro r
  have hsound : r.Sound (some login) :=
    hlogin ▸ (Recorded.sound_create settings address).after acts
  refine ⟨fun k hk => (hsound.orderly k hk).login login rfl, fun hruns => ?_,
    fun step c haway => ?_⟩
  · exact ⟨hsound.told hruns, hsound.linked_iff hruns⟩
  · obtain ⟨hfails, hwire⟩ := hsound.turnedAway haway wanted
    have hoffline : (r.work wanted step).node.isOnline = false := Node.isOnline_of_fails hfails
    exact ⟨hfails, hwire, (hsound.work wanted step).startsOver hoffline⟩

/-- A login that is refused, and one that is acknowledged. The write of the first
fails; the read that follows it goes over another connection, after a login of
its own. -/
theorem login_first_refused :
    let login : Credentials := ⟨"u", "p"⟩
    let settings : RemoteSettings := ⟨[⟨"a", 1⟩], .ofSeconds 1, 4, some login, none⟩
    let all : Ticket → Bool := fun _ => true
    let acts : List Act :=
      [.issue (.set "k" ⟨#[7]⟩ 0), .work all .take, .work all (.dial .accepted)]
    let refusal : WorkerStep := .login (.status .notStored)
    let later : List Act :=
      [.issue (.get "k" 0), .work all .take, .work all (.dial .accepted),
        .work all (.login (.status .stored))]
    let r := Recorded.after { node := Node.create settings ⟨"a", 1⟩ } acts
    let refused := r.work all refusal
    settings.credentials = some login ∧ r.node.turnedAway refusal = some (.set "k" ⟨#[7]⟩ 0) ∧
      refused.node.failures = 1 ∧ refused.node.connected = false ∧ refused.StartsOver login ∧
      (refused.after later).node.worker = .exchanging (.get "k" 0) ∧
      (refused.after later).wire.connections.map Connection.sent =
        [[loginRequest login], [loginRequest login, .get "k"]] := by
  intro login settings all acts refusal later r refused
  have haway : r.node.turnedAway refusal = some (.set "k" ⟨#[7]⟩ 0) := rfl
  have hlogin := login_first settings ⟨"a", 1⟩ (rfl : settings.credentials = some login) acts all
  obtain ⟨hfails, -, hstarts⟩ := hlogin.2.2 refusal _ haway
  have hexecutes : (refused.after later).node.worker = .exchanging (.get "k" 0) := rfl
  have hsent : (refused.after later).wire.connections.map Connection.sent =
      [[loginRequest login], [loginRequest login, .get "k"]] := by decide +kernel
  exact ⟨rfl, haway, hfails.failures, hfails.connected, hstarts, hexecutes, hsent⟩

end CacheService.Remote
