import CacheService.Proofs.Remote.Wire

/-!
# CacheService.Proofs.Remote.Connections

The connections of a node through any run.

* `Connection.Orderly` — what holds of every connection: the login comes first, and
  nothing follows an exchange for which the connection had to go. `Connection.IsReady`
  is a connection on which commands can be sent.
* `Recorded.Sound` — what state of the connections belongs to each state of the worker
  (`Worker.Fits`). Every run keeps to it (`Recorded.Sound.after`), one lemma for each
  thing that the worker does.
* `Recorded.Beyond` — connections that are no more in use. Once the worker has let go of
  a connection, no run sends anything on it (`Recorded.Sound.final`).
-/

namespace CacheService.Remote

/-! ## What belongs together -/

open Node (loginRequest)

/-- A connection on which commands can be sent: where there is a login, it was
the first request and has been acknowledged, and no exchange has ended so that
the connection had to go. -/
structure Connection.IsReady (credentials : Option Credentials) (k : Connection) : Prop where
  login : ∀ login, credentials = some login →
    k.exchanges.head? = some (loginRequest login, .status .stored)
  intact : ∀ e ∈ k.exchanges, keepsConnection e = true

/-- What holds of every connection, whether it is still in use or not: where
there is a login, it is the first request, and others follow only if it has been
acknowledged; and after an exchange for which the connection had to go, nothing
more is sent. -/
structure Connection.Orderly (credentials : Option Credentials) (k : Connection) : Prop where
  login : ∀ login, credentials = some login → ∃ rest, k.sent = loginRequest login :: rest ∧
    (rest ≠ [] → k.exchanges.head? = some (loginRequest login, .status .stored))
  intact : ∀ e ∈ k.exchanges.take (k.sent.length - 1), keepsConnection e = true

/-- The connection that belongs to a worker: one is held exactly while the worker rests
on it or has a command on it. -/
def Worker.Fits (credentials : Option Credentials) (linked : Bool) (latest : Option Connection) :
    Worker → Prop
  | .absent | .dialing _ | .gone => linked = false
  | .resting =>
    linked = true → ∃ k, latest = some k ∧ k.outstanding = none ∧ k.IsReady credentials
  | .loggingIn _ =>
    linked = false ∧ ∃ login, credentials = some login ∧
      latest = some { outstanding := some (loginRequest login) }
  | .exchanging c =>
    linked = true ∧ ∃ k, latest = some k ∧ k.outstanding = c.request? ∧ k.IsReady credentials

namespace Connection

variable {k : Connection} {credentials : Option Credentials}

/-- A connection that `IsReady` is `Orderly`. -/
theorem IsReady.orderly (h : k.IsReady credentials) : k.Orderly credentials := by
  refine ⟨fun login hlogin => ?_, fun e he => h.intact e (List.mem_of_mem_take he)⟩
  have hfirst := h.login login hlogin
  obtain ⟨rest, hrest⟩ := List.head?_eq_some_iff.mp hfirst
  exact ⟨rest.map (·.1) ++ k.outstanding.toList, by simp [sent, hrest], fun _ => hfirst⟩

/-- A connection that has carried nothing but its login is `Orderly`. -/
theorem orderly_login {login : Credentials} (hlogin : credentials = some login) :
    Orderly credentials { outstanding := some (loginRequest login) } := by
  refine ⟨fun login' hlogin' => ?_, by simp⟩
  obtain rfl : login = login' := Option.some.inj (hlogin.symm.trans hlogin')
  exact ⟨[], rfl, by simp⟩

/-- So is one whose login ends: nothing else has been sent on it. -/
theorem orderly_refused {login : Credentials} (hlogin : credentials = some login)
    {answer : Answer} :
    Orderly credentials { exchanges := [(loginRequest login, answer)] } := by
  refine ⟨fun login' hlogin' => ?_, by simp [sent]⟩
  obtain rfl : login = login' := Option.some.inj (hlogin.symm.trans hlogin')
  exact ⟨[], rfl, by simp⟩

/-- An exchange may end in any way: nothing has been sent after it. -/
theorem IsReady.orderly_hear (h : k.IsReady credentials) {request : Request}
    (hk : k.outstanding = some request) (answer : Answer) :
    (k.hear answer).Orderly credentials := by
  obtain ⟨hlogin, -⟩ := h.orderly
  refine ⟨fun login hcredentials => ?_, fun e he => h.intact e ?_⟩
  · rw [sent_hear]
    obtain ⟨rest, hsent, -⟩ := hlogin login hcredentials
    have hfirst := h.login login hcredentials
    exact ⟨rest, hsent, fun _ => by simp [hear, List.head?_append, hfirst]⟩
  · simpa [hear, sent, hk] using he

/-- An exchange that `keepsConnection` leaves the connection ready for the next. -/
theorem IsReady.hear (h : k.IsReady credentials) {request : Request}
    (hk : k.outstanding = some request) {answer : Answer}
    (hkeeps : keepsConnection (request, answer) = true) : (k.hear answer).IsReady credentials := by
  refine ⟨fun login hlogin => ?_, fun e he => ?_⟩
  · simp [Connection.hear, List.head?_append, h.login login hlogin]
  · simp only [Connection.hear, hk, Option.toList_some, List.map_cons, List.map_nil] at he
    obtain he | he := List.mem_append.mp he
    · exact h.intact e he
    · obtain rfl := List.mem_singleton.mp he
      exact hkeeps

/-! What makes a connection useless: its login is still to be acknowledged, or
is not, or an exchange on it has ended badly. -/

/-- A connection on which the login is still outstanding is not ready. -/
theorem not_isReady_login {login : Credentials} (hlogin : credentials = some login)
    (request : Request) : ¬ IsReady credentials { outstanding := some request } := fun h => by
  simpa using h.login login hlogin

/-- Nor is one whose login was not acknowledged. -/
theorem not_isReady_refused {login : Credentials} (hlogin : credentials = some login)
    {answer : Answer} (hanswer : answer ≠ .status .stored) :
    ¬ IsReady credentials { exchanges := [(loginRequest login, answer)] } := fun h =>
  hanswer (by simpa using h.login login hlogin)

/-- Nor is one that an exchange has spoilt. -/
theorem not_isReady_hear {request : Request} (hk : k.outstanding = some request) {answer : Answer}
    (hkeeps : keepsConnection (request, answer) = false) :
    ¬ (k.hear answer).IsReady credentials := fun h => by
  have hkept := h.intact (request, answer) (by simp [Connection.hear, hk])
  simp [hkeeps] at hkept

end Connection

namespace Recorded

/-- The connections of a node are as the state of its worker has them. -/
structure Sound (credentials : Option Credentials) (r : Recorded) : Prop where
  configured : r.node.credentials = credentials
  /-- As long as the worker runs, others are told the truth. -/
  told : r.node.isGone = false → r.node.connected = r.node.linked
  /-- The command in hand is one that is sent. -/
  sends : ∀ c, r.node.inHand = some c → c.request?.isSome = true
  fits : r.node.worker.Fits credentials r.node.linked r.wire.latest
  /-- A connection that the worker does not hold any more is of no use to it. -/
  spent : r.node.isGone = false → r.node.linked = false →
    ∀ k, r.wire.latest = some k → ¬ k.IsReady credentials
  orderly : ∀ k ∈ r.wire.connections, k.Orderly credentials

variable {r : Recorded} {credentials : Option Credentials} {c : Command}

/-- A resting worker that holds a connection waits for nothing on it. -/
theorem Sound.of_resting (h : r.Sound credentials) (hworker : r.node.worker = .resting)
    (hlinked : r.node.linked = true) :
    ∃ k, r.wire.latest = some k ∧ k.outstanding = none ∧ k.IsReady credentials := by
  simpa [hworker, Worker.Fits, hlinked] using h.fits

/-- A worker that dials has no connection. -/
theorem Sound.of_dialing (h : r.Sound credentials) (hworker : r.node.worker = .dialing c) :
    r.node.linked = false := by
  simpa [hworker, Worker.Fits] using h.fits

/-- A worker that logs in has sent its login and nothing else. -/
theorem Sound.of_loggingIn (h : r.Sound credentials) (hworker : r.node.worker = .loggingIn c) :
    r.node.linked = false ∧ ∃ login, credentials = some login ∧
      r.wire.latest = some { outstanding := some (loginRequest login) } := by
  simpa [hworker, Worker.Fits] using h.fits

/-- A worker with a command on a connection that `IsReady` has sent that command last. -/
theorem Sound.of_exchanging (h : r.Sound credentials) (hworker : r.node.worker = .exchanging c) :
    r.node.linked = true ∧ ∃ request k, c.request? = some request ∧ r.wire.latest = some k ∧
      k.outstanding = some request ∧ k.IsReady credentials := by
  obtain ⟨hlinked, k, hk, hout, hready⟩ : r.node.linked = true ∧ ∃ k,
      r.wire.latest = some k ∧ k.outstanding = c.request? ∧ k.IsReady credentials := by
    simpa [hworker, Worker.Fits] using h.fits
  obtain ⟨request, hrequest⟩ :=
    Option.isSome_iff_exists.mp (h.sends c (by simp [Node.inHand, hworker]))
  exact ⟨hlinked, request, k, hrequest, hk, hout.trans hrequest, hready⟩

/-- A new node is `Sound`. -/
theorem sound_create (settings : RemoteSettings) (address : Address) :
    Sound settings.credentials { node := Node.create settings address } :=
  ⟨rfl, fun _ => rfl, by simp [Node.create, Node.inHand], rfl, by simp, by simp [Wire.connections]⟩

/-- The latest connection goes on, and stays `Orderly`. -/
theorem Sound.orderly_latest (h : r.Sound credentials) {k : Connection}
    (hk : k.Orderly credentials) :
    ∀ k' ∈ Wire.connections { r.wire with latest := some k }, k'.Orderly credentials := by
  intro k' hk'
  obtain hk' | hk' := List.mem_append.mp hk'
  · exact h.orderly k' (List.mem_append_left _ hk')
  · obtain rfl : k' = k := by simpa using hk'
    exact hk

/-- Another connection is opened, and a request sent on it. -/
theorem Sound.orderly_opened (h : r.Sound credentials) {k : Connection}
    (hk : k.Orderly credentials) :
    ∀ k' ∈ Wire.connections { earlier := r.wire.connections, latest := some k },
      k'.Orderly credentials := by
  intro k' hk'
  obtain hk' | hk' := List.mem_append.mp hk'
  · exact h.orderly k' hk'
  · obtain rfl : k' = k := by simpa using hk'
    exact hk

/-- `Sound` when nothing happens to the worker or on the wire (`Node.Spares`). -/
theorem Sound.spared (h : r.Sound credentials) {n : Node} (hspares : r.node.Spares n) :
    Sound credentials { r with node := n } := by
  obtain ⟨hcredentials, hlinked, hconnected, hworker | ⟨habsent, hworker⟩⟩ := hspares
  · have hgone : n.isGone = r.node.isGone := by simp [Node.isGone, hworker]
    refine ⟨hcredentials.trans h.configured, fun hruns => ?_, fun c hc => ?_, ?_, ?_, h.orderly⟩
    · rw [hconnected, hlinked]
      exact h.told (hgone ▸ hruns)
    · exact h.sends c (by simpa [Node.inHand, hworker] using hc)
    · rw [hworker, hlinked]
      exact h.fits
    · rw [hgone, hlinked]
      exact h.spent
  · have hnone : r.node.linked = false := by simpa [habsent, Worker.Fits] using h.fits
    have hruns : r.node.isGone = false := by simp [Node.isGone, habsent]
    refine ⟨hcredentials.trans h.configured, fun _ => ?_, ?_, ?_, fun _ _ => ?_, h.orderly⟩
    · rw [hconnected, hlinked]
      exact h.told hruns
    · simp [Node.inHand, hworker]
    · simp [hworker, hlinked, hnone, Worker.Fits]
    · exact h.spent hruns hnone

/-! ### Steps of the worker -/

/-- `Sound` when the worker comes to rest, on the connection that it has or without one. -/
theorem Sound.rests (h : r.Sound credentials) {n : Node} {w : Wire}
    (hcredentials : n.credentials = r.node.credentials) (hworker : n.worker = .resting)
    (htold : n.connected = n.linked)
    (hlatest : n.linked = true →
      ∃ k, w.latest = some k ∧ k.outstanding = none ∧ k.IsReady credentials)
    (hspent : n.linked = false → ∀ k, w.latest = some k → ¬ k.IsReady credentials)
    (horderly : ∀ k ∈ w.connections, k.Orderly credentials) : Sound credentials ⟨n, w⟩ :=
  ⟨hcredentials.trans h.configured, fun _ => htold, by simp [Node.inHand, hworker],
    by simpa [hworker, Worker.Fits] using hlatest, fun _ => hspent, horderly⟩

/-- `Sound` when a command fails before anything, or anything more, is sent on a
connection. -/
theorem Sound.fails (h : r.Sound credentials) {progress : Node × List Event} {w : Wire}
    (hfails : r.node.Fails c progress)
    (hspent : ∀ k, w.latest = some k → ¬ k.IsReady credentials)
    (horderly : ∀ k ∈ w.connections, k.Orderly credentials) : Sound credentials ⟨progress.1, w⟩ :=
  h.rests hfails.credentials hfails.worker (hfails.connected.trans hfails.linked.symm)
    (by simp [hfails.linked]) (fun _ => hspent) horderly

/-- What `Recorded.work` makes of a command that is taken. -/
theorem work_take (hworker : r.node.worker = .resting) (wanted : Ticket → Bool) :
    r.work wanted .take =
      { node := (r.node.takeNext wanted).1
        wire := (r.node.takeNext wanted).1.awaiting r.wire } := by
  simp [work, Node.advance, Node.signals, Node.awaiting, hworker]

/-- A command that a resting worker starts on goes out at once if there is a connection;
else the worker dials for it. -/
theorem Sound.starts (h : r.Sound credentials) (hworker : r.node.worker = .resting) {started : Node}
    (hstarted : started =
      { r.node with worker := if r.node.linked then .exchanging c else .dialing c })
    (hsent : c.request?.isSome = true) :
    Sound credentials ⟨started, started.awaiting r.wire⟩ := by
  have hruns : r.node.isGone = false := by simp [Node.isGone, hworker]
  have htold : r.node.connected = r.node.linked := h.told hruns
  obtain ⟨request, hrequest⟩ := Option.isSome_iff_exists.mp hsent
  subst hstarted
  cases hlinked : r.node.linked with
  | true =>
      obtain ⟨k, hk, hidle, hkready⟩ := h.of_resting hworker hlinked
      have hgoes : (k.send request).IsReady credentials := ⟨hkready.login, hkready.intact⟩
      have hwire : ({ r.node with worker := .exchanging c } : Node).awaiting r.wire =
          { r.wire with latest := some (k.send request) } := by
        simp [Node.awaiting, Node.awaited, hrequest, Wire.carry, hk]
      simp only [if_true]
      rw [hwire]
      refine ⟨h.configured, fun _ => htold, fun c' hc' => ?_, ?_, by simp [hlinked],
        h.orderly_latest hgoes.orderly⟩
      · obtain rfl : c = c' := by simpa [Node.inHand] using hc'
        exact hsent
      · exact ⟨hlinked, _, rfl, hrequest.symm, hgoes⟩
  | false =>
      have hwire : ({ r.node with worker := .dialing c } : Node).awaiting r.wire = r.wire := by
        simp [Node.awaiting, Node.awaited]
      simp only [Bool.false_eq_true, if_false]
      rw [hwire]
      refine ⟨h.configured, fun _ => htold, fun c' hc' => ?_, hlinked, fun _ => h.spent hruns,
        h.orderly⟩
      obtain rfl : c = c' := by simpa [Node.inHand] using hc'
      exact hsent

theorem Sound.take (h : r.Sound credentials) (hworker : r.node.worker = .resting)
    (wanted : Ticket → Bool) : (r.work wanted .take).Sound credentials := by
  have hruns : r.node.isGone = false := by simp [Node.isGone, hworker]
  have htold : r.node.connected = r.node.linked := h.told hruns
  rw [work_take hworker]
  unfold Node.takeNext
  cases hqueue : r.node.queue with
  | nil => simpa [Node.awaiting, Node.awaited, hworker] using h
  | cons c rest =>
      let taken : Node := { r.node with queue := rest, requests := r.node.requests + 1 }
      have htaken : Sound credentials ⟨taken, r.wire⟩ :=
        h.rests rfl hworker htold (h.of_resting hworker) (h.spent hruns) h.orderly
      have hidle : taken.awaiting r.wire = r.wire := by
        simp [taken, Node.awaiting, Node.awaited, hworker]
      cases c with
      | barrier ticket => simpa [taken, hidle] using htaken
      | get key ticket =>
          cases hw : wanted ticket with
          | true => simpa [hw] using htaken.starts hworker rfl rfl
          | false => simpa [hw, taken, hidle] using htaken
      | _ => exact htaken.starts hworker rfl rfl

theorem Sound.dial (h : r.Sound credentials) (hworker : r.node.worker = .dialing c)
    (wanted : Ticket → Bool) (outcome : Dial) :
    (r.work wanted (.dial outcome)).Sound credentials := by
  have hunlinked : r.node.linked = false := h.of_dialing hworker
  have hruns : r.node.isGone = false := by simp [Node.isGone, hworker]
  have htold : r.node.connected = r.node.linked := h.told hruns
  have hsent : c.request?.isSome = true := h.sends c (by simp [Node.inHand, hworker])
  cases outcome with
  | accepted =>
      cases hcredentials : r.node.credentials with
      | none =>
          obtain rfl : credentials = none := h.configured.symm.trans hcredentials
          obtain ⟨request, hrequest⟩ := Option.isSome_iff_exists.mp hsent
          have hready : Connection.IsReady none { outstanding := some request } :=
            ⟨by simp, by simp⟩
          have hwork : r.work wanted (.dial .accepted) = ⟨r.node.connect c,
              { earlier := r.wire.connections,
                latest := some { outstanding := some request } }⟩ := by
            simp [work, Node.advance, Node.signals, Node.dialed, Node.awaited,
              Node.connect, hworker,
              hcredentials, hrequest, Wire.carry, Connection.send]
          rw [hwork]
          refine ⟨hcredentials, fun _ => rfl, fun c' hc' => ?_, ?_, by simp [Node.connect],
            h.orderly_opened hready.orderly⟩
          · obtain rfl : c = c' := by simpa [Node.connect, Node.inHand] using hc'
            exact hsent
          · exact ⟨rfl, _, rfl, hrequest.symm, hready⟩
      | some login =>
          obtain rfl : credentials = some login := h.configured.symm.trans hcredentials
          have hwork : r.work wanted (.dial .accepted) = ⟨{ r.node with worker := .loggingIn c },
              { earlier := r.wire.connections
                latest := some { outstanding := some (loginRequest login) } }⟩ := by
            simp [work, Node.advance, Node.signals, Node.dialed, Node.awaited, hworker,
              hcredentials, Wire.carry, Connection.send]
          rw [hwork]
          refine ⟨hcredentials, fun _ => htold, fun c' hc' => ?_, ?_, fun _ _ k hk => ?_,
            h.orderly_opened (Connection.orderly_login rfl)⟩
          · obtain rfl : c = c' := by simpa [Node.inHand] using hc'
            exact hsent
          · exact ⟨hunlinked, login, rfl, rfl⟩
          · obtain rfl := Option.some.inj hk
            exact Connection.not_isReady_login rfl _
  | refused reason =>
      have hfails : r.node.Fails c (r.node.dialed c (.refused reason)) := Node.fails_fail htold c _
      simpa [work, Node.advance, Node.signals, hworker] using
        h.fails hfails (h.spent hruns hunlinked) h.orderly
  | silence =>
      have hfails : r.node.Fails c (r.node.dialed c .silence) := Node.fails_fail htold c _
      simpa [work, Node.advance, Node.signals, hworker] using
        h.fails hfails (h.spent hruns hunlinked) h.orderly

/-- The login in hand ends, and is not acknowledged. -/
theorem Sound.refused {login : Credentials} (h : r.Sound (some login))
    (hworker : r.node.worker = .loggingIn c) {answer : Answer} (hanswer : answer ≠ .status .stored)
    (wanted : Ticket → Bool) :
    r.node.Fails c (r.node.advance wanted (.login answer)) ∧
      (r.work wanted (.login answer)).wire = { r.wire with
        latest := some { exchanges := [(loginRequest login, answer)] } } := by
  have htold : r.node.connected = r.node.linked := h.told (by simp [Node.isGone, hworker])
  obtain ⟨-, login', hlogin, hlatest⟩ := h.of_loggingIn hworker
  obtain rfl := Option.some.inj hlogin
  have hfails : r.node.Fails c (r.node.advance wanted (.login answer)) := by
    simpa [Node.advance, hworker, h.configured] using Node.fails_loggedIn htold c login hanswer
  refine ⟨hfails, ?_⟩
  simp [work, Node.signals, hworker, Node.awaited, hfails.worker, Wire.carry, hlatest,
    Connection.hear]

theorem Sound.login (h : r.Sound credentials) (hworker : r.node.worker = .loggingIn c)
    (wanted : Ticket → Bool) (answer : Answer) :
    (r.work wanted (.login answer)).Sound credentials := by
  obtain ⟨hunlinked, login, rfl, hlatest⟩ := h.of_loggingIn hworker
  have htold : r.node.connected = r.node.linked := h.told (by simp [Node.isGone, hworker])
  have hsent : c.request?.isSome = true := h.sends c (by simp [Node.inHand, hworker])
  by_cases hstored : answer = .status .stored
  · subst hstored
    let heard : Connection := { exchanges := [(loginRequest login, .status .stored)] }
    obtain ⟨request, hrequest⟩ := Option.isSome_iff_exists.mp hsent
    have hready : Connection.IsReady (some login) (heard.send request) := by
      refine ⟨fun login' hlogin' => ?_, ?_⟩
      · obtain rfl : login = login' := Option.some.inj hlogin'
        rfl
      · simp [heard, Connection.send, loginRequest, keepsConnection, Request.isRegular]
    have hheard : r.wire.carry (.ended (.status .stored)) =
        { r.wire with latest := some heard } := by
      simp [Wire.carry, hlatest, Connection.hear, heard]
    have hwork : r.work wanted (.login (.status .stored)) =
        ⟨r.node.connect c, { r.wire with latest := some (heard.send request) }⟩ := by
      simp [work, Node.advance, Node.signals, Node.loggedIn, loginRequest, Request.read,
        Node.awaited,
        Node.connect, hworker, h.configured, hrequest, hheard]
      simp [Wire.carry]
    rw [hwork]
    refine ⟨h.configured, fun _ => rfl, fun c' hc' => ?_, ?_, by simp [Node.connect],
      h.orderly_latest hready.orderly⟩
    · obtain rfl : c = c' := by simpa [Node.connect, Node.inHand] using hc'
      exact hsent
    · exact ⟨rfl, _, rfl, hrequest.symm, hready⟩
  · obtain ⟨hfails, hwire⟩ := h.refused hworker hstored wanted
    have hwork : r.work wanted (.login answer) = ⟨(r.node.advance wanted (.login answer)).1,
        { r.wire with latest := some { exchanges := [(loginRequest login, answer)] } }⟩ :=
      congrArg (Recorded.mk _) hwire
    rw [hwork]
    refine h.fails hfails (fun k hk => ?_) (h.orderly_latest (Connection.orderly_refused rfl))
    obtain rfl := Option.some.inj hk
    exact Connection.not_isReady_refused rfl hstored

/-- The exchange in hand ends, as the last thing on its connection. -/
theorem work_exchange {request : Request} {k : Connection} (hworker : r.node.worker = .exchanging c)
    (hrequest : c.request? = some request) (hk : r.wire.latest = some k) (wanted : Ticket → Bool)
    (answer : Answer) :
    r.work wanted (.exchange answer) =
      ⟨(r.node.exchanged c (request.read answer)).1,
        { r.wire with latest := some (k.hear answer) }⟩ := by
  simp [work, Node.advance, Node.signals, hworker, hrequest, Wire.carry, hk]

theorem Sound.exchange (h : r.Sound credentials) (hworker : r.node.worker = .exchanging c)
    (wanted : Ticket → Bool) (answer : Answer) :
    (r.work wanted (.exchange answer)).Sound credentials := by
  obtain ⟨hlinked, request, k, hrequest, hk, hout, hready⟩ := h.of_exchanging hworker
  have htold : r.node.connected = r.node.linked := h.told (by simp [Node.isGone, hworker])
  have horderly := h.orderly_latest (hready.orderly_hear hout answer)
  have hcases := Node.exchanged_cases htold hrequest answer
  rw [work_exchange hworker hrequest hk]
  cases hkeeps : keepsConnection (request, answer) with
  | true =>
      have hsucceeds : r.node.Succeeds c (r.node.exchanged c (request.read answer)) := by
        simpa [hkeeps] using hcases
      refine h.rests hsucceeds.credentials hsucceeds.worker ?_ (fun _ => ?_) ?_ horderly
      · rw [hsucceeds.connected, hsucceeds.linked, htold]
      · exact ⟨_, rfl, rfl, hready.hear hout hkeeps⟩
      · simp [hsucceeds.linked, hlinked]
  | false =>
      have hfails : r.node.Fails c (r.node.exchanged c (request.read answer)) := by
        simpa [hkeeps] using hcases
      refine h.fails hfails (fun k' hk' => ?_) horderly
      obtain rfl := Option.some.inj hk'
      exact Connection.not_isReady_hear hout hkeeps

/-- Time that is up ends a login in silence: it is as an `Answer.silence`. -/
theorem Sound.expire_loggingIn (h : r.Sound credentials) (hworker : r.node.worker = .loggingIn c)
    (wanted : Ticket → Bool) :
    r.work wanted .expire = r.work wanted (.login .silence) ∧
      r.node.advance wanted .expire = r.node.advance wanted (.login .silence) := by
  obtain ⟨-, login, rfl, -⟩ := h.of_loggingIn hworker
  have hadvance : r.node.advance wanted .expire = r.node.advance wanted (.login .silence) := by
    simp [Node.advance, Node.expire, Node.loggedIn, Request.read, hworker, h.configured]
  have hidle : (r.node.advance wanted (.login .silence)).1.awaited = none := by
    have hfails := (h.refused hworker (by simp : Answer.silence ≠ .status .stored) wanted).1
    simp [Node.awaited, hfails.worker]
  refine ⟨?_, hadvance⟩
  simp [work, hadvance, Node.signals, hworker, hidle]

/-- Time that is up ends an exchange in silence, too. -/
theorem Sound.expire_exchanging (h : r.Sound credentials) (hworker : r.node.worker = .exchanging c)
    (wanted : Ticket → Bool) :
    r.work wanted .expire = r.work wanted (.exchange .silence) ∧
      r.node.advance wanted .expire = r.node.advance wanted (.exchange .silence) := by
  obtain ⟨-, request, k, hrequest, -⟩ := h.of_exchanging hworker
  have hread : request.read .silence = .timeout := by cases request <;> rfl
  have hadvance : r.node.advance wanted .expire = r.node.advance wanted (.exchange .silence) := by
    simp [Node.advance, Node.expire, Node.exchanged, hworker, hrequest, hread]
  exact ⟨by simp [work, hadvance, Node.signals, hworker], hadvance⟩

theorem Sound.expire (h : r.Sound credentials) (wanted : Ticket → Bool) :
    (r.work wanted .expire).Sound credentials := by
  cases hworker : r.node.worker with
  | dialing c =>
      have hunlinked : r.node.linked = false := h.of_dialing hworker
      have hruns : r.node.isGone = false := by simp [Node.isGone, hworker]
      have htold : r.node.connected = r.node.linked := h.told hruns
      have hfails : r.node.Fails c r.node.expire := by
        simpa [Node.expire, hworker] using Node.fails_fail htold c _
      simpa [work, Node.advance, Node.signals, hworker] using
        h.fails hfails (h.spent hruns hunlinked) h.orderly
  | loggingIn c =>
      rw [(h.expire_loggingIn hworker wanted).1]
      exact h.login hworker wanted .silence
  | exchanging c =>
      rw [(h.expire_exchanging hworker wanted).1]
      exact h.exchange hworker wanted .silence
  | _ => simpa [work, Node.advance, Node.signals, Node.expire, hworker] using h

theorem Sound.retire (h : r.Sound credentials) (wanted : Ticket → Bool) :
    (r.work wanted .retire).Sound credentials := by
  have hwire : r.work wanted .retire = { r with node := r.node.retire } := by
    simp [work, Node.advance, Node.signals]
  rw [hwire]
  unfold Node.retire
  cases hworker : r.node.worker with
  | resting =>
      dsimp only
      split
      · exact ⟨h.configured, by simp [Node.isGone], by simp [Node.inHand], rfl,
          by simp [Node.isGone], h.orderly⟩
      · exact h
  | _ => exact h

/-- **A step** of the worker keeps `Sound`. -/
theorem Sound.work (h : r.Sound credentials) (wanted : Ticket → Bool) (step : WorkerStep) :
    (r.work wanted step).Sound credentials := by
  cases step with
  | take =>
      cases hworker : r.node.worker with
      | resting => exact h.take hworker wanted
      | _ => simpa [Recorded.work, Node.advance, Node.signals, hworker] using h
  | dial outcome =>
      cases hworker : r.node.worker with
      | dialing c => exact h.dial hworker wanted outcome
      | _ => simpa [Recorded.work, Node.advance, Node.signals, hworker] using h
  | login answer =>
      cases hworker : r.node.worker with
      | loggingIn c => exact h.login hworker wanted answer
      | _ => simpa [Recorded.work, Node.advance, Node.signals, hworker] using h
  | exchange answer =>
      cases hworker : r.node.worker with
      | exchanging c => exact h.exchange hworker wanted answer
      | _ => simpa [Recorded.work, Node.advance, Node.signals, hworker] using h
  | expire => exact h.expire wanted
  | retire => exact h.retire wanted

/-- **Whatever happens** to a node keeps `Sound`. -/
theorem Sound.act (h : r.Sound credentials) (a : Act) : (r.act a).Sound credentials := by
  cases a with
  | issue c => exact h.spared (r.node.spares_issue c)
  | work wanted step => exact h.work wanted step
  | close => exact ⟨h.configured, h.told, h.sends, h.fits, h.spent, h.orderly⟩
  | abort =>
      exact ⟨h.configured, by simp [Recorded.act, Node.abort, Node.isGone],
        by simp [Recorded.act, Node.abort, Node.inHand], rfl,
        by simp [Recorded.act, Node.abort, Node.isGone], h.orderly⟩

/-- **A run** keeps `Sound`. -/
theorem Sound.after (h : r.Sound credentials) (acts : List Act) :
    (r.after acts).Sound credentials := by
  induction acts generalizing r with
  | nil => exact h
  | cons a acts ih => exact ih (h.act a)

/-! ### Connections that are let go of -/

/-- A resting worker without a connection stays without one and sends nothing. -/
theorem offline_resting (hworker : r.node.worker = .resting) (hoffline : r.node.isOnline = false)
    (hunlinked : r.node.linked = false) (wanted : Ticket → Bool) (step : WorkerStep) :
    (r.work wanted step).wire = r.wire ∧ (r.work wanted step).node.isOnline = false := by
  cases step with
  | take =>
      obtain ⟨hlinked, hnext⟩ := Node.takeNext_cases hworker wanted
      have hnone : (r.node.takeNext wanted).1.awaited = none := by
        obtain hrests | ⟨c, hdials⟩ := hnext
        · simp [Node.awaited, hrests]
        · simp [Node.awaited, hdials, hunlinked]
      rw [work_take hworker]
      simp [Node.isOnline, Node.awaiting, hnone, hlinked, hunlinked]
  | retire =>
      refine ⟨by simp [Recorded.work, Node.signals, Node.advance], ?_⟩
      have hretired : r.node.retire.isOnline = false := by
        simp only [Node.retire, hworker]
        split
        · rfl
        · exact hoffline
      simpa [Recorded.work, Node.advance] using hretired
  | _ => simpa [Recorded.work, Node.advance, Node.signals, Node.expire, hworker] using hoffline

/-- A worker that dials stays without a connection and sends nothing, unless it is given a
new one. -/
theorem offline_dialing {c : Command} (hworker : r.node.worker = .dialing c)
    (hoffline : r.node.isOnline = false) (htold : r.node.connected = r.node.linked)
    (wanted : Ticket → Bool) (step : WorkerStep) :
    (r.work wanted step).wire = r.wire ∧ (r.work wanted step).node.isOnline = false ∨
      ∃ signals : List Signal,
        (r.work wanted step).wire = signals.foldl Wire.carry (r.wire.carry .opened) := by
  cases step with
  | dial outcome =>
      cases outcome with
      | accepted =>
          refine .inr ⟨((r.node.dialed c .accepted).1.awaited.map Signal.sent).toList, ?_⟩
          simp [Recorded.work, Node.advance, Node.signals, hworker]
      | refused reason =>
          have hfails : r.node.Fails c (r.node.dialed c (.refused reason)) :=
            Node.fails_fail htold c _
          exact .inl (by simpa [Recorded.work, Node.advance, Node.signals, hworker] using
            Node.isOnline_of_fails hfails)
      | silence =>
          have hfails : r.node.Fails c (r.node.dialed c .silence) := Node.fails_fail htold c _
          exact .inl (by simpa [Recorded.work, Node.advance, Node.signals, hworker] using
            Node.isOnline_of_fails hfails)
  | expire =>
      have hfails : r.node.Fails c r.node.expire := by
        simpa [Node.expire, hworker] using Node.fails_fail htold c _
      exact .inl (by simpa [Recorded.work, Node.advance, Node.signals, hworker] using
        Node.isOnline_of_fails hfails)
  | _ =>
      exact .inl (by simpa [Recorded.work, Node.advance, Node.signals, Node.retire, hworker] using
        hoffline)

/-- A worker without a connection stays without one, and nothing is sent, unless it
opens a new one. -/
theorem Sound.work_offline (h : r.Sound credentials) (hoffline : r.node.isOnline = false)
    (wanted : Ticket → Bool) (step : WorkerStep) :
    (r.work wanted step).wire = r.wire ∧ (r.work wanted step).node.isOnline = false ∨
      ∃ signals : List Signal,
        (r.work wanted step).wire = signals.foldl Wire.carry (r.wire.carry .opened) := by
  obtain ⟨hunlinked, hawaited⟩ : r.node.linked = false ∧ r.node.awaited = none := by
    simpa [Node.isOnline] using hoffline
  cases hworker : r.node.worker with
  | resting => exact .inl (offline_resting hworker hoffline hunlinked wanted step)
  | dialing c =>
      exact offline_dialing hworker hoffline (h.told (by simp [Node.isGone, hworker])) wanted step
  | loggingIn c =>
      obtain ⟨-, login, hlogin, -⟩ := h.of_loggingIn hworker
      simp [Node.awaited, hworker, h.configured, hlogin] at hawaited
  | exchanging c =>
      have hlinked := (h.of_exchanging hworker).1
      simp [hunlinked] at hlinked
  | _ =>
      refine .inl ?_
      cases step <;> simpa [Recorded.work, Node.advance, Node.signals, Node.expire, Node.retire,
        hworker] using hoffline

/-- The connections in `base` are all there, and none of them is in use. -/
structure Beyond (base : List Connection) (r : Recorded) : Prop where
  kept : base <+: r.wire.connections
  unused : r.node.isOnline = true → base <+: r.wire.earlier

/-- What is sent goes over the latest connection; those before it are only added to. -/
theorem earlier_grows (w : Wire) (signals : List Signal) :
    w.earlier <+: (signals.foldl Wire.carry w).earlier := by
  induction signals generalizing w with
  | nil => exact List.prefix_rfl
  | cons s signals ih =>
      refine List.IsPrefix.trans ?_ (ih (w.carry s))
      cases s with
      | opened => exact List.prefix_append _ _
      | _ => exact List.prefix_rfl

/-- Connections before the latest one are not in use. -/
theorem Beyond.of_earlier {base : List Connection} (h : base <+: r.wire.earlier) : Beyond base r :=
  ⟨h.trans (List.prefix_append _ _), fun _ => h⟩

/-- `Beyond` whatever happens to a node. -/
theorem Beyond.act {base : List Connection} (h : Beyond base r)
    (hr : r.Sound credentials) (a : Act) :
    Beyond base (r.act a) := by
  cases a with
  | issue c =>
      exact ⟨h.kept, fun hline => h.unused ((r.node.spares_issue c).isOnline ▸ hline)⟩
  | work wanted step =>
      cases honline : r.node.isOnline with
      | true => exact .of_earlier ((h.unused honline).trans (earlier_grows _ _))
      | false =>
          obtain ⟨hwire, hoffline⟩ | ⟨signals, hwire⟩ := hr.work_offline honline wanted step
          · exact ⟨hwire ▸ h.kept, fun hline => absurd hline (by simp [Recorded.act, hoffline])⟩
          · refine .of_earlier ?_
            show base <+: (r.work wanted step).wire.earlier
            rw [hwire]
            exact List.IsPrefix.trans h.kept (earlier_grows (r.wire.carry .opened) signals)
  | close => exact ⟨h.kept, h.unused⟩
  | abort => exact ⟨h.kept, by simp [Recorded.act, Node.abort, Node.isOnline, Node.awaited]⟩

/-- **A connection that the worker has let go of is final**: whatever happens
later, nothing is sent on it. Requests go over connections that are opened
later. -/
theorem Sound.final (h : r.Sound credentials) (hoffline : r.node.isOnline = false)
    (acts : List Act) : Beyond r.wire.connections (r.after acts) := by
  have hbeyond : Beyond r.wire.connections r := ⟨List.prefix_rfl, by simp [hoffline]⟩
  generalize r.wire.connections = base at hbeyond
  clear hoffline
  induction acts generalizing r with
  | nil => exact hbeyond
  | cons a acts ih => exact ih (h.act a) (hbeyond.act h a)

end Recorded

end CacheService.Remote
