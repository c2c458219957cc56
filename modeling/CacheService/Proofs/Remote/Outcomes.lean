import CacheService.Proofs.Remote.Books
import CacheService.Proofs.Remote.Healthy

/-!
# CacheService.Proofs.Remote.Outcomes

How lookups, deletes and flushes end, and what each step of a call makes of that.

* `Outcome` — how one lookup, one delete or the flush of one node has ended.
* `Cluster.settledAtOnce` and `Cluster.settledNext` — what a step settles, read off the
  client before the step: the keys that no server takes, the refusals of queues, and the
  answers that are there or will not come.
* `Settles` and `HasSettled` — what a call owes for its keys and nodes when it has
  returned, and what while it is under way.

Two facts hold of every step of every call: the counters grow by what the step settles
(`Cluster.Adds`), and what a call has settled is what it owes at that point
(`Cluster.Accounts`). Calls that start are in `Cluster.accounts_begin`, and those that
go on in `Cluster.accounts_goOn`, with one lemma for each kind of `Progress`.
-/

namespace CacheService.Remote

/-! ## Outcomes -/

/-- How one lookup, one delete or the flush of one node has ended. -/
inductive Outcome
  /-- A lookup of a key that no server takes. -/
  | invalid (key : String)
  | read (key : String) (finding : Finding)
  | deleted (key : String) (finding : Finding)
  | flushed (node : Nat) (finding : Finding)

namespace Outcome

/-- A lookup, of a valid key or not. -/
def isLookup : Outcome → Bool
  | .invalid _ | .read .. => true
  | .deleted .. | .flushed .. => false

/-- A lookup of a key that no server takes. -/
def isInvalid : Outcome → Bool
  | .invalid _ => true
  | _ => false

/-- A lookup answered with a value. -/
def isHit : Outcome → Bool
  | .read _ (.ok (some _)) => true
  | _ => false

/-- A lookup answered, without a value. -/
def isAbsent : Outcome → Bool
  | .read _ (.ok none) => true
  | _ => false

/-- A lookup that was not answered. -/
def isFailedLookup : Outcome → Bool
  | .read _ (.error _) => true
  | _ => false

/-- A delete that was not answered, or refused. -/
def isFailedDelete : Outcome → Bool
  | .deleted _ (.error _) => true
  | _ => false

/-- A flush that was not acknowledged. -/
def isFailedFlush : Outcome → Bool
  | .flushed _ (.error _) => true
  | _ => false

/-- The error of what has failed. -/
def failure? : Outcome → Option CacheError
  | .read _ (.error e) | .deleted _ (.error e) | .flushed _ (.error e) => some e
  | _ => none

/-- Whether something has failed because no answer came in time (`isTimeout`). -/
def timedOut (o : Outcome) : Bool := o.failure?.any (·.isTimeout)

/-- Whether something has failed for another cause. -/
def erred (o : Outcome) : Bool := o.failure?.any (!·.isTimeout)

/-- A lookup is a hit or a miss, and misses are of three kinds. -/
theorem countP_isLookup (os : List Outcome) :
    os.countP isHit + (os.countP isInvalid + os.countP isAbsent + os.countP isFailedLookup) =
      os.countP isLookup := by
  induction os with
  | nil => rfl
  | cons o os ih =>
      simp only [List.countP_cons, ← ih]
      rcases o with key | ⟨key, e | _ | value⟩ | ⟨key, finding⟩ | ⟨node, finding⟩ <;>
        simp only [isHit, isInvalid, isAbsent, isFailedLookup, isLookup] <;> simp <;> omega

/-- A failure is a timeout or another error, and is one of three kinds. -/
theorem countP_failed (os : List Outcome) :
    os.countP timedOut + os.countP erred =
      os.countP isFailedLookup + os.countP isFailedDelete + os.countP isFailedFlush := by
  induction os with
  | nil => rfl
  | cons o os ih =>
      simp only [List.countP_cons]
      rcases o with key | ⟨key, e | value⟩ | ⟨key, e | value⟩ | ⟨node, e | value⟩
      case invalid | read.ok | deleted.ok | flushed.ok => exact ih
      all_goals
        cases h : e.isTimeout <;>
          simp [timedOut, erred, failure?, isFailedLookup, isFailedDelete, isFailedFlush,
            h] <;> omega

end Outcome

namespace Cluster

/-! ## What a step settles -/

/-- What a queued read has come to, as far as that is known. What has been stopped is no
outcome of a read: it ends the call. -/
def finding? (c : Cluster) (late : Bool) (read : PendingRead) : Option Finding :=
  match read.answer with
  | .error e => if e.isIllegalState then none else some (.error e)
  | .ok ticket => c.outcome? late read.node ticket

/-- The reads that are settled in order, up to the first that has come to nothing
(`finding?`). -/
def settledReads (c : Cluster) (late : Bool) : List PendingRead → List Outcome
  | [] => []
  | read :: reads =>
    match c.finding? late read with
    | none => []
    | some finding => .read read.key finding :: c.settledReads late reads

/-- How a command that cannot be queued ends. -/
def settledUnqueued (c : Cluster) (i : Nat) (command : Ticket → Command)
    (outcome : Finding → Outcome) : List Outcome :=
  match (c.submit i command).2 with
  | .ok _ => []
  | .error e => if e.isIllegalState then [] else [outcome (.error e)]

/-- The flushes that cannot be queued, up to the first that can. -/
def settledFlushes (c : Cluster) : List Nat → List Outcome
  | [] => []
  | i :: rest =>
    match (c.submit i .flush).2 with
    | .ok _ => []
    | .error e =>
      if e.isIllegalState then [] else .flushed i (.error e) :: c.settledFlushes rest

/-- What a call settles as it starts. -/
def settledAtOnce (c : Cluster) (call : Call) : List Outcome :=
  if c.stopped then []
  else
    match call with
    | .get key =>
      if isValidKey key then c.settledUnqueued (c.nodeOf key) (.get key) (.read key)
      else [.invalid key]
    | .delete key =>
      if isValidKey key then c.settledUnqueued (c.nodeOf key) (.delete key) (.deleted key) else []
    | .clear => c.settledFlushes c.positions
    | .getMany _ | .set .. | .stop | .awaitWrites => []

/-- What a call settles as it goes on. -/
def settledNext (c : Cluster) (late : Bool) : Progress → List Outcome
  | .queues (key :: _) _ => if isValidKey key then [] else [.invalid key]
  | .queues [] queued => c.settledReads late queued
  | .waits (.get key i ticket) => ((c.outcome? late i ticket).map (.read key)).toList
  | .waits (.getMany _ reads _) => c.settledReads late reads
  | .waits (.delete key i ticket) => ((c.outcome? late i ticket).map (.deleted key)).toList
  | .waits (.clear i ticket rest) =>
    match c.outcome? late i ticket with
    | none => []
    | some finding => .flushed i finding :: c.settledFlushes rest
  | .waits (.awaitWrites ..) | .waits (.stop ..) => []

/-! ## What a call owes -/

/-- The lookups of keys that no server takes. -/
def invalids (keys : List String) : List Outcome :=
  (keys.filter fun key => !isValidKey key).map .invalid

/-- What reads have found, by key. -/
def collected (reads : List (String × Finding)) : Found :=
  reads.foldl (fun found read => addFound found read.1 read.2.toOption.join) {}

/-- What a call on so many `nodes` that has returned has settled: one lookup for each
key that it reads, one delete for a valid key, one flush for each node. A call that met
something stopped owes nothing. -/
def Settles (nodes : Nat) : Call → Result → List Outcome → Prop
  | _, .error e, _ => e.isIllegalState = true
  | .get key, .value value, os =>
    if isValidKey key then
      ∃ finding : Finding, os = [.read key finding] ∧ value = finding.toOption.join
    else os = [.invalid key] ∧ value = none
  | .getMany keys, .found found, os =>
    ∃ reads : List (String × Finding),
      os = invalids keys ++ reads.map (fun read => .read read.1 read.2) ∧
      reads.map (·.1) = keys.filter isValidKey ∧ found = collected reads
  | .delete key, .done, os =>
    if isValidKey key then ∃ finding, os = [.deleted key finding] else os = []
  | .clear, .done, os =>
    ∃ flushes : List (Nat × Finding), os = flushes.map (fun flush => .flushed flush.1 flush.2) ∧
      flushes.map (·.1) = List.range nodes
  | .set .., .done, os | .stop, .done, os | .awaitWrites, .done, os => os = []
  | _, _, _ => False

/-- What a call under way has settled by its `Progress`. -/
def HasSettled (nodes : Nat) : Call → Progress → List Outcome → Prop
  | .get key, .waits (.get key' _ _), os => key' = key ∧ isValidKey key = true ∧ os = []
  | .getMany keys, .queues left queued, os =>
    ∃ seen, keys = seen ++ left ∧ queued.map (·.key) = seen.filter isValidKey ∧ os = invalids seen
  | .getMany keys, .waits (.getMany _ left found), os =>
    ∃ reads : List (String × Finding),
      os = invalids keys ++ reads.map (fun read => .read read.1 read.2) ∧
      reads.map (·.1) ++ left.map (·.key) = keys.filter isValidKey ∧ found = collected reads
  | .delete key, .waits (.delete key' _ _), os => key' = key ∧ isValidKey key = true ∧ os = []
  | .clear, .waits (.clear i _ rest), os =>
    ∃ flushes : List (Nat × Finding), os = flushes.map (fun flush => .flushed flush.1 flush.2) ∧
      flushes.map (·.1) ++ i :: rest = List.range nodes
  | .stop, .waits (.stop ..), os | .awaitWrites, .waits (.awaitWrites ..), os => os = []
  | _, _, _ => False

/-- The counters have grown by the outcomes in `os`. -/
structure Adds (c : Cluster) (os : List Outcome) (c' : Cluster) : Prop where
  hits : c'.hits = c.hits + os.countP Outcome.isHit
  misses : c'.misses = c.misses +
    (os.countP Outcome.isInvalid + os.countP Outcome.isAbsent + os.countP Outcome.isFailedLookup)
  timeouts : c'.timeouts = c.timeouts + os.countP Outcome.timedOut
  errors : c'.errors = c.errors + os.countP Outcome.erred

/-- A step of a call, before which it had settled some outcomes, counts what it settles
(`Adds`), and the call has then settled what it owes. -/
structure Accounts (c : Cluster) (call : Call) (before news : List Outcome)
    (stage : Stage) : Prop where
  adds : c.Adds news stage.1
  settled : match stage.2 with
    | .inl result => Settles c.nodes.length call result (before ++ news)
    | .inr progress => HasSettled c.nodes.length call progress (before ++ news)

variable {c c' c'' : Cluster}

/-! ## Counting -/

theorem Adds.refl (c : Cluster) : c.Adds [] c := ⟨rfl, rfl, rfl, rfl⟩

/-- `Adds` nothing: what leaves the counters alone. -/
theorem Adds.of_eq (hhits : c'.hits = c.hits) (hmisses : c'.misses = c.misses)
    (htimeouts : c'.timeouts = c.timeouts) (herrors : c'.errors = c.errors) : c.Adds [] c' :=
  ⟨hhits, hmisses, htimeouts, herrors⟩

/-- What is counted in turn is counted together. -/
theorem Adds.trans {os os' : List Outcome} (h : c.Adds os c') (h' : c'.Adds os' c'') :
    c.Adds (os ++ os') c'' := by
  obtain ⟨hhits, hmisses, htimeouts, herrors⟩ := h
  obtain ⟨hhits', hmisses', htimeouts', herrors'⟩ := h'
  constructor <;> simp only [List.countP_append] <;> omega

/-- Outcomes are counted in any order. -/
theorem Adds.congr {os os' : List Outcome} (h : c.Adds os c')
    (hcount : ∀ p : Outcome → Bool, os'.countP p = os.countP p) : c.Adds os' c' := by
  obtain ⟨hhits, hmisses, htimeouts, herrors⟩ := h
  constructor <;> simp only [hcount] <;> assumption

/-- A client of which only the counters have changed. -/
def Recounts (c c' : Cluster) : Prop :=
  ∃ hits misses timeouts errors, c' = { c with hits, misses, timeouts, errors }

/-- `Recounts` keeps the nodes. -/
theorem Recounts.nodes (h : c.Recounts c') : c'.nodes = c.nodes := by
  obtain ⟨_, _, _, _, rfl⟩ := h
  rfl

/-- What is settled does not depend on the counters. -/
theorem Recounts.settledReads (h : c.Recounts c') (late : Bool) (reads : List PendingRead) :
    c'.settledReads late reads = c.settledReads late reads := by
  obtain ⟨_, _, _, _, rfl⟩ := h
  induction reads with
  | nil => rfl
  | cons read reads ih =>
      unfold Cluster.settledReads
      rw [ih]
      rfl

theorem Recounts.settledFlushes (h : c.Recounts c') (positions : List Nat) :
    c'.settledFlushes positions = c.settledFlushes positions := by
  obtain ⟨hits, misses, timeouts, errors, rfl⟩ := h
  have hsubmit (i : Nat) :
      (submit { c with hits, misses, timeouts, errors } i .flush).2 = (c.submit i .flush).2 := by
    unfold submit
    cases c.nodes[i]? with
    | none => rfl
    | some n =>
        dsimp only
        cases n.submit (.flush c.nextTicket) <;> rfl
  induction positions with
  | nil => rfl
  | cons i rest ih =>
      unfold Cluster.settledFlushes
      rw [ih, hsubmit]

/-- `settleRead` counts the outcome of a read. -/
theorem adds_settleRead (c : Cluster) (key : String) (finding : Finding) :
    (c.settleRead key finding).1 = finding.toOption.join ∧
      c.Adds [.read key finding] (c.settleRead key finding).2.1 ∧
      c.Recounts (c.settleRead key finding).2.1 := by
  unfold settleRead
  rcases finding with e | _ | value
  · dsimp only
    split <;> rename_i h
    all_goals
      refine ⟨rfl, ?_, _, _, _, _, rfl⟩
      constructor <;>
        simp [Outcome.isHit, Outcome.isInvalid, Outcome.isAbsent, Outcome.isFailedLookup,
          Outcome.timedOut, Outcome.erred, Outcome.failure?, h]
  · exact ⟨rfl, ⟨rfl, rfl, rfl, rfl⟩, _, _, _, _, rfl⟩
  · exact ⟨rfl, ⟨rfl, rfl, rfl, rfl⟩, _, _, _, _, rfl⟩

/-- `settleFailure` counts that of a delete or a flush. -/
theorem adds_settleFailure (c : Cluster) (what target : String) {e : CacheError} {o : Outcome}
    (ho : o.failure? = some e) (hlookup : o.isLookup = false) :
    c.Adds [o] (c.settleFailure what target e).1 ∧
      c.Recounts (c.settleFailure what target e).1 := by
  have hnone : o.isHit = false ∧ o.isInvalid = false ∧ o.isAbsent = false ∧
      o.isFailedLookup = false := by
    cases o <;> simp_all [Outcome.isLookup, Outcome.isHit, Outcome.isInvalid, Outcome.isAbsent,
      Outcome.isFailedLookup]
  obtain ⟨hhit, hinvalid, habsent, hfailed⟩ := hnone
  unfold settleFailure
  dsimp only
  split <;> rename_i h
  all_goals
    refine ⟨?_, _, _, _, _, rfl⟩
    constructor <;>
      simp [hhit, hinvalid, habsent, hfailed, Outcome.timedOut, Outcome.erred, ho, h]

/-- `settleFlush` counts the outcome of a flush, if it is a failure. -/
theorem adds_settleFlush (c : Cluster) (i : Nat) (finding : Finding) :
    c.Adds [.flushed i finding] (c.settleFlush i finding).1 ∧
      c.Recounts (c.settleFlush i finding).1 := by
  cases finding with
  | ok value => exact ⟨⟨rfl, rfl, rfl, rfl⟩, _, _, _, _, rfl⟩
  | error e => exact adds_settleFailure c _ _ rfl rfl

/-- `submit` counts nothing. -/
theorem adds_submit (c : Cluster) (i : Nat) (command : Ticket → Command) :
    c.Adds [] (c.submit i command).1 ∧ (c.submit i command).1.nodes.length = c.nodes.length := by
  obtain ⟨e, h⟩ | ⟨n, n', -, -, h⟩ := submit_cases c i command
  · rw [h]
    exact ⟨.refl c, rfl⟩
  · rw [h]
    exact ⟨.of_eq rfl rfl rfl rfl, List.length_set⟩

/-! ## Parts of calls -/

section Parts

variable {call : Call} {before news more : List Outcome} {stage : Stage}

/-- What is reported is no part of the books. -/
@[simp] theorem stage_notices (turn : Turn) (notices : List Notice) :
    Turn.stage { turn with notices } = turn.stage := rfl

/-- What a part of a step settles goes before what the rest of it settles. -/
theorem Accounts.after (h : c'.Accounts call (before ++ news) more stage) (hadds : c.Adds news c')
    (hnodes : c'.nodes.length = c.nodes.length) : c.Accounts call before (news ++ more) stage := by
  refine ⟨hadds.trans h.adds, ?_⟩
  rw [← hnodes, ← List.append_assoc]
  exact h.settled

/-- `Accounts` goes through a part of a step that settles nothing. -/
theorem Accounts.after_nil (h : c'.Accounts call before news stage) (hadds : c.Adds [] c')
    (hnodes : c'.nodes.length = c.nodes.length) : c.Accounts call before news stage :=
  have h' : c'.Accounts call (before ++ []) news stage := by rwa [List.append_nil]
  h'.after hadds hnodes

/-- A call that meets something stopped ends, and owes nothing. -/
theorem Accounts.refused (c : Cluster) (call : Call) (before : List Outcome) {e : CacheError}
    (he : e.isIllegalState = true) : c.Accounts call before [] (c, .inl (.error e)) := by
  refine ⟨.refl c, ?_⟩
  cases call <;> exact he

/-- One more read adds what it has found. -/
theorem collected_concat (reads : List (String × Finding)) (key : String) (finding : Finding) :
    addFound (collected reads) key finding.toOption.join =
      collected (reads ++ [(key, finding)]) := by
  simp [collected]

/-- `settleReads` settles reads in order, as far as their answers are there. -/
theorem accounts_settleReads (c : Cluster) (late : Bool) {keys : List String}
    (reads : List (String × Finding)) {left : List PendingRead}
    (hkeys : reads.map (·.1) ++ left.map (·.key) = keys.filter isValidKey) :
    c.Accounts (.getMany keys) (invalids keys ++ reads.map fun read => .read read.1 read.2)
      (c.settledReads late left) (c.settleReads late (collected reads) left).stage := by
  induction left generalizing c reads with
  | nil => exact ⟨.refl c, reads, by simp [settledReads], by simpa using hkeys, rfl⟩
  | cons read left ih =>
      have hsettle (finding : Finding) :
          c.Accounts (.getMany keys) (invalids keys ++ reads.map fun read => .read read.1 read.2)
            (.read read.key finding :: c.settledReads late left)
            ((c.settleRead read.key finding).2.1.settleReads late
              (addFound (collected reads) read.key (c.settleRead read.key finding).1)
                left).stage := by
        obtain ⟨hvalue, hadds, hrecounts⟩ := adds_settleRead c read.key finding
        rw [hvalue, collected_concat, ← hrecounts.settledReads]
        have hrest := ih (c.settleRead read.key finding).2.1 (reads ++ [(read.key, finding)])
          (by simpa using hkeys)
        exact .after (by simpa using hrest) hadds (congrArg List.length hrecounts.nodes)
      unfold settleReads settledReads finding?
      cases read.answer with
      | error e =>
          cases he : e.isIllegalState with
          | true => simpa [he] using .refused c _ _ he
          | false => simpa [he] using hsettle (.error e)
      | ok ticket =>
          cases h : c.outcome? late read.node ticket with
          | some finding => simpa [h] using hsettle finding
          | none => simpa [h] using ⟨.refl c, reads, by simp, hkeys, rfl⟩

/-- A command that is waited for is queued, or its failure is the outcome. -/
theorem accounts_awaited (c : Cluster) (i : Nat) (command : Ticket → Command)
    (wait : Ticket → Waiting)
    {outcome : Finding → Outcome} {failed : Cluster → CacheError → Turn}
    (hwait : ∀ ticket, HasSettled c.nodes.length call (.waits (wait ticket)) [])
    (hfailed : ∀ e, c.Accounts call [] [outcome (.error e)] (failed c e).stage) :
    c.Accounts call [] (c.settledUnqueued i command outcome)
      (match c.submit i command with
      | (c, .ok ticket) => .waits c (wait ticket) []
      | (c, .error e) =>
        if e.isIllegalState then .returned c (.error e) [] else failed c e : Turn).stage := by
  have hsubmit := adds_submit c i command
  unfold settledUnqueued
  obtain ⟨e, h⟩ | ⟨n, n', -, -, h⟩ := submit_cases c i command
  · rw [h]
    cases he : e.isIllegalState with
    | true => simpa [he] using .refused c call [] he
    | false => simpa [he] using hfailed e
  · rw [h] at hsubmit ⊢
    exact ⟨hsubmit.1, hwait c.nextTicket⟩

/-- `flushFrom` settles flushes in order, up to the first that is queued. -/
theorem accounts_flushFrom (c : Cluster) (flushes : List (Nat × Finding)) {left : List Nat}
    (hnodes : flushes.map (·.1) ++ left = List.range c.nodes.length) :
    c.Accounts .clear (flushes.map fun flush => .flushed flush.1 flush.2) (c.settledFlushes left)
      (c.flushFrom left).stage := by
  induction left generalizing c flushes with
  | nil => exact ⟨.refl c, flushes, by simp [settledFlushes], by simpa using hnodes⟩
  | cons i left ih =>
      have hsubmit := adds_submit c i .flush
      unfold flushFrom settledFlushes
      obtain ⟨e, h⟩ | ⟨n, n', -, -, h⟩ := submit_cases c i .flush
      · rw [h]
        cases he : e.isIllegalState with
        | true => simpa [he] using .refused c .clear _ he
        | false =>
            obtain ⟨hadds, hrecounts⟩ := adds_settleFlush c i (.error e)
            have hrest := ih (c.settleFlush i (.error e)).1 (flushes ++ [(i, .error e)])
              (by simpa [hrecounts.nodes] using hnodes)
            rw [hrecounts.settledFlushes] at hrest
            simpa [he] using .after (by simpa using hrest) hadds
              (congrArg List.length hrecounts.nodes)
      · rw [h] at hsubmit ⊢
        exact ⟨hsubmit.1, flushes, by simp, hnodes⟩

/-- `awaitFrom` settles nothing: barriers have no outcome. -/
theorem accounts_awaitFrom (c : Cluster) (positions : List Nat) :
    c.Accounts .awaitWrites [] [] (c.awaitFrom positions).stage := by
  induction positions generalizing c with
  | nil => exact ⟨.refl c, rfl⟩
  | cons i rest ih =>
      have hsubmit := adds_submit c i .barrier
      unfold awaitFrom
      split
      · rcases h : c.submit i .barrier with ⟨c', e | ticket⟩
        · rw [h] at hsubmit
          exact (ih c').after_nil hsubmit.1 hsubmit.2
        · rw [h] at hsubmit
          exact ⟨hsubmit.1, rfl⟩
      · exact ih c

/-- Nor have the ends of workers. -/
theorem accounts_awaitEnds (c : Cluster) (positions : List Nat) :
    c.Accounts .stop [] [] (c.awaitEnds positions).stage := by
  induction positions with
  | nil => exact ⟨.refl c, rfl⟩
  | cons i rest ih =>
      unfold awaitEnds
      split
      · exact ih
      · exact ⟨.refl c, rfl⟩

/-- A read of several keys queues the next one. -/
theorem accounts_queueRead (c : Cluster) (late : Bool) {keys left : List String} {key : String}
    {queued : List PendingRead}
    (h : HasSettled c.nodes.length (.getMany keys) (.queues (key :: left) queued) before) :
    c.Accounts (.getMany keys) before (if isValidKey key then [] else [.invalid key])
      (c.goOn late (.queues (key :: left) queued)) := by
  obtain ⟨seen, hkeys, hqueued, rfl⟩ := h
  have hseen : keys = (seen ++ [key]) ++ left := by simpa using hkeys
  cases hkey : isValidKey key with
  | true =>
      have hsubmit := adds_submit c (c.nodeOf key) (.get key)
      have hvalid := validateKey_of_valid hkey
      refine ⟨?_, seen ++ [key], hseen, ?_, ?_⟩
      · simpa [goOn, submitReads, hvalid] using hsubmit.1
      · simp [submitReads, hvalid, hqueued, hkey]
      · simp [invalids, hkey]
  | false =>
      obtain ⟨e, hinvalid⟩ := validateKey_of_invalid hkey
      refine ⟨?_, seen ++ [key], hseen, ?_, ?_⟩
      · simpa [goOn, submitReads, hinvalid] using ⟨rfl, rfl, rfl, rfl⟩
      · simp [submitReads, hinvalid, hqueued, hkey]
      · simp [invalids, hkey]

end Parts

/-! ## Calls -/

/-- The outcome of a single read is that of its call. -/
theorem accounts_finishGet (c : Cluster) {key : String} (hkey : isValidKey key = true)
    (finding : Finding) :
    c.Accounts (.get key) [] [.read key finding] (c.finishGet key finding).stage := by
  obtain ⟨hvalue, hadds, -⟩ := adds_settleRead c key finding
  refine ⟨hadds, ?_⟩
  change if _ then _ else _
  rw [if_pos hkey]
  exact ⟨finding, rfl, hvalue⟩

/-- The outcome of a delete is that of its call. -/
theorem accounts_finishDelete (c : Cluster) {key : String} (hkey : isValidKey key = true) (i : Nat)
    (finding : Finding) :
    c.Accounts (.delete key) [] [.deleted key finding] (c.finishDelete key i finding).stage := by
  have hsettled : Settles c.nodes.length (.delete key) .done [.deleted key finding] := by
    change if _ then _ else _
    rw [if_pos hkey]
    exact ⟨finding, rfl⟩
  cases finding with
  | ok value => exact ⟨⟨rfl, rfl, rfl, rfl⟩, hsettled⟩
  | error e => exact ⟨(adds_settleFailure c _ _ rfl rfl).1, hsettled⟩

/-- A stop closes nodes, which is no outcome. -/
theorem accounts_startStop (c : Cluster) : c.Accounts .stop [] [] c.startStop.stage := by
  unfold startStop
  split
  · exact .refused c .stop [] rfl
  · refine (accounts_awaitEnds _ _).after_nil ?_ ?_
    · exact .of_eq rfl rfl rfl rfl
    · exact List.length_map _

/-- A write settles nothing: it is no lookup, and its failure is a dropped write. -/
theorem accounts_set (hc : c.Booked) (unixSeconds : Int) (key : String) (value : ByteArray)
    (ttl : UInt32) :
    c.Accounts (.set key value ttl) [] [] (c.start unixSeconds (.set key value ttl)).stage := by
  obtain ⟨result, hnext, hissued⟩ := issued_start hc unixSeconds key value ttl
  unfold Turn.stage
  rw [hnext]
  generalize (c.start unixSeconds (.set key value ttl)).cluster = c' at hissued
  cases hissued with
  | refused e he => exact .refused c _ _ he
  | queued i n n' _ _ _ _ => exact ⟨.of_eq rfl rfl rfl rfl, rfl⟩
  | lost _ => exact ⟨.of_eq rfl rfl rfl rfl, rfl⟩

/-- A read that starts settles itself at once where its key is invalid or its node takes
no command; else it waits. -/
theorem accounts_startGet (hrunning : c.stopped = false) (key : String) :
    c.Accounts (.get key) [] (c.settledAtOnce (.get key)) (c.startGet key).stage := by
  unfold startGet
  cases hkey : isValidKey key with
  | true =>
      simp only [validateKey_of_valid hkey, settledAtOnce, hrunning, hkey, if_true]
      exact accounts_awaited c _ (.get key) (.get key _) (fun _ => ⟨rfl, hkey, rfl⟩) fun e =>
        accounts_finishGet c hkey (.error e)
  | false =>
      obtain ⟨e, hinvalid⟩ := validateKey_of_invalid hkey
      simp only [hinvalid, settledAtOnce, hrunning, hkey]
      exact ⟨⟨rfl, rfl, rfl, rfl⟩, by simp [Turn.stage, Turn.returned, Settles, hkey]⟩

/-- A delete that starts settles itself at once where its node takes no command. An
invalid key is nothing to delete, and nothing is counted. -/
theorem accounts_startDelete (hrunning : c.stopped = false) (key : String) :
    c.Accounts (.delete key) [] (c.settledAtOnce (.delete key)) (c.startDelete key).stage := by
  unfold startDelete
  cases hkey : isValidKey key with
  | true =>
      simp only [validateKey_of_valid hkey, settledAtOnce, hrunning, hkey, if_true]
      exact accounts_awaited c _ (.delete key) (.delete key _) (fun _ => ⟨rfl, hkey, rfl⟩) fun e =>
        accounts_finishDelete c hkey _ (.error e)
  | false =>
      obtain ⟨e, hinvalid⟩ := validateKey_of_invalid hkey
      simp only [hinvalid, settledAtOnce, hrunning, hkey]
      exact ⟨.refl c, by simp [Turn.stage, Turn.returned, Settles, hkey]⟩

/-- `accounts_begin` on a client that is not stopped. -/
theorem accounts_startRunning (hc : c.Booked) (hrunning : c.stopped = false) (unixSeconds : Int)
    (call : Call) : c.Accounts call [] (c.settledAtOnce call) (c.begin unixSeconds call) := by
  have hstart (hcall : ∀ keys, call ≠ .getMany keys) :
      c.begin unixSeconds call = (c.startRunning unixSeconds call).stage := by
    cases call with
    | getMany keys => exact absurd rfl (hcall keys)
    | _ => simp [begin, start, hrunning]
  cases call with
  | getMany keys =>
      have hbegin : c.begin unixSeconds (.getMany keys) = (c, .inr (.queues keys [])) := by
        simp [begin, hrunning]
      rw [hbegin]
      exact
        ⟨by simpa [settledAtOnce] using .refl c, [], rfl, rfl, by simp [settledAtOnce, invalids]⟩
  | get key =>
      rw [hstart (by simp)]
      exact accounts_startGet hrunning key
  | delete key =>
      rw [hstart (by simp)]
      exact accounts_startDelete hrunning key
  | clear =>
      rw [hstart (by simp)]
      simp only [settledAtOnce, hrunning]
      exact accounts_flushFrom c [] rfl
  | set key value ttl =>
      simp only [settledAtOnce, hrunning]
      exact accounts_set hc unixSeconds key value ttl
  | stop =>
      simp only [settledAtOnce, hrunning]
      exact accounts_startStop c
  | awaitWrites =>
      simp only [settledAtOnce, hrunning]
      exact accounts_awaitFrom c c.positions

/-- **A call that starts** counts what it settles (`settledAtOnce`). -/
theorem accounts_begin (hc : c.Booked) (unixSeconds : Int) (call : Call) :
    c.Accounts call [] (c.settledAtOnce call) (c.begin unixSeconds call) := by
  cases hstopped : c.stopped with
  | false => exact accounts_startRunning hc hstopped unixSeconds call
  | true =>
      have hnone : c.settledAtOnce call = [] := by simp [settledAtOnce, hstopped]
      rw [hnone]
      cases call with
      | stop => exact accounts_startStop c
      | awaitWrites => exact accounts_awaitFrom c c.positions
      | _ => simpa [begin, start, hstopped] using .refused c _ [] rfl

/-! ### Calls that go on -/

section GoesOn

variable (c : Cluster) (late : Bool) {call : Call} {before : List Outcome}

/-- A call that goes on waiting has settled nothing, and waits as it did. -/
theorem accounts_stays {wait : Waiting} (h : HasSettled c.nodes.length call (.waits wait) before) :
    c.Accounts call before [] (c, .inr (.waits wait)) := ⟨.refl c, by simpa using h⟩

/-- The next read of several is queued, or its key is invalid. -/
theorem accounts_goOn_queues {left : List String} {queued : List PendingRead}
    (h : HasSettled c.nodes.length call (.queues left queued) before) :
    c.Accounts call before (c.settledNext late (.queues left queued))
      (c.goOn late (.queues left queued)) := by
  cases call with
  | getMany keys =>
      cases left with
      | cons key left => exact accounts_queueRead c late h
      | nil =>
          obtain ⟨seen, hkeys, hqueued, rfl⟩ := h
          obtain rfl : keys = seen := by simpa using hkeys
          have hreads := accounts_settleReads c late [] hqueued
          rwa [List.map_nil, List.append_nil] at hreads
  | _ => exact h.elim

/-- A single read settles its own answer. -/
theorem accounts_goOn_get {key : String} {i : Nat} {ticket : Ticket}
    (h : HasSettled c.nodes.length call (.waits (.get key i ticket)) before) :
    c.Accounts call before (c.settledNext late (.waits (.get key i ticket)))
      (c.goOn late (.waits (.get key i ticket))) := by
  have hstays := accounts_stays c h
  cases call with
  | get key' =>
      obtain ⟨rfl, hkey, rfl⟩ := h
      simp only [goOn, resume, settledNext]
      cases c.outcome? late i ticket with
      | none => exact hstays
      | some finding => exact accounts_finishGet c hkey finding
  | _ => exact h.elim

/-- A read of several keys settles the answers that are there, in order. -/
theorem accounts_goOn_getMany {ticket : Ticket} {left : List PendingRead} {found : Found}
    (h : HasSettled c.nodes.length call (.waits (.getMany ticket left found)) before) :
    c.Accounts call before (c.settledNext late (.waits (.getMany ticket left found)))
      (c.goOn late (.waits (.getMany ticket left found))) := by
  cases call with
  | getMany keys =>
      obtain ⟨reads, rfl, hkeys, rfl⟩ := h
      exact accounts_settleReads c late reads hkeys
  | _ => exact h.elim

/-- A delete settles its own answer. -/
theorem accounts_goOn_delete {key : String} {i : Nat} {ticket : Ticket}
    (h : HasSettled c.nodes.length call (.waits (.delete key i ticket)) before) :
    c.Accounts call before (c.settledNext late (.waits (.delete key i ticket)))
      (c.goOn late (.waits (.delete key i ticket))) := by
  have hstays := accounts_stays c h
  cases call with
  | delete key' =>
      obtain ⟨rfl, hkey, rfl⟩ := h
      simp only [goOn, resume, settledNext]
      cases c.outcome? late i ticket with
      | none => exact hstays
      | some finding => exact accounts_finishDelete c hkey i finding
  | _ => exact h.elim

/-- A clear settles the flush it has waited for, and comes to the nodes that are left. -/
theorem accounts_goOn_clear {i : Nat} {ticket : Ticket} {rest : List Nat}
    (h : HasSettled c.nodes.length call (.waits (.clear i ticket rest)) before) :
    c.Accounts call before (c.settledNext late (.waits (.clear i ticket rest)))
      (c.goOn late (.waits (.clear i ticket rest))) := by
  have hstays := accounts_stays c h
  cases call with
  | clear =>
      simp only [goOn, resume, settledNext]
      cases c.outcome? late i ticket with
      | none => exact hstays
      | some finding =>
          obtain ⟨flushes, rfl, hnodes⟩ := h
          obtain ⟨hadds, hrecounts⟩ := adds_settleFlush c i finding
          have hrest : Accounts _ .clear _ ((c.settleFlush i finding).1.settledFlushes rest)
              ((c.settleFlush i finding).1.flushFrom rest).stage :=
            accounts_flushFrom _ (flushes ++ [(i, finding)])
              (by simpa [hrecounts.nodes] using hnodes)
          rw [hrecounts.settledFlushes] at hrest
          exact .after (by simpa using hrest) hadds (congrArg List.length hrecounts.nodes)
  | _ => exact h.elim

/-- A wait for writes settles nothing. -/
theorem accounts_goOn_awaitWrites {i : Nat} {ticket : Ticket} {rest : List Nat}
    (h : HasSettled c.nodes.length call (.waits (.awaitWrites i ticket rest)) before) :
    c.Accounts call before (c.settledNext late (.waits (.awaitWrites i ticket rest)))
      (c.goOn late (.waits (.awaitWrites i ticket rest))) := by
  have hstays := accounts_stays c h
  cases call with
  | awaitWrites =>
      obtain rfl : before = [] := h
      simp only [goOn, resume, settledNext]
      cases c.outcome? false i ticket with
      | none => exact hstays
      | some finding => exact accounts_awaitFrom c rest
  | _ => exact h.elim

/-- Nor does a stop. -/
theorem accounts_goOn_stop {i : Nat} {rest : List Nat}
    (h : HasSettled c.nodes.length call (.waits (.stop i rest)) before) :
    c.Accounts call before (c.settledNext late (.waits (.stop i rest)))
      (c.goOn late (.waits (.stop i rest))) := by
  have hstays := accounts_stays c h
  cases call with
  | stop =>
      obtain rfl : before = [] := h
      simp only [goOn, resume, settledNext]
      split
      · exact accounts_awaitEnds c rest
      · split
        · exact (accounts_awaitEnds _ rest).after_nil (.of_eq rfl rfl rfl rfl)
            (List.length_modify ..)
        · exact hstays
  | _ => exact h.elim

/-- **A call that goes on** counts what it settles (`settledNext`), whatever its
`Progress`. -/
theorem accounts_goOn {progress : Progress}
    (h : HasSettled c.nodes.length call progress before) :
    c.Accounts call before (c.settledNext late progress) (c.goOn late progress) := by
  cases progress with
  | queues left queued => exact accounts_goOn_queues c late h
  | waits wait =>
      cases wait with
      | get key i ticket => exact accounts_goOn_get c late h
      | getMany ticket left found => exact accounts_goOn_getMany c late h
      | delete key i ticket => exact accounts_goOn_delete c late h
      | clear i ticket rest => exact accounts_goOn_clear c late h
      | awaitWrites i ticket rest => exact accounts_goOn_awaitWrites c late h
      | stop i rest => exact accounts_goOn_stop c late h

end GoesOn

end Cluster

end CacheService.Remote
