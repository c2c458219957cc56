import Mathlib.Data.List.Induction
import CacheService.Cache.Basic
import CacheService.Proofs.Backend

/-!
# CacheService.Proofs.Cache.Lifecycle

The life of a cache under every sequence of operations (`Cache.Op`). The operations that
need a backend have it built on first use; what they do then is what they do to a cache
in use (`perform_built`).

* `Phase` — the three phases, each of which has one lemma for all operations:
  `perform_built` and `perform_failed`, `perform_active` and `perform_stopped`.
* `Cache.Sound` — what holds of a cache all its life. Every step keeps it, and takes the
  phase on as the operation says (`sound_step`).
* `Phase.ofOps` — so the phase after a run is a function of the operations alone
  (`phase_after`), and the way from one phase on to another is taken at most once
  (`crossings_le_one`).
-/

namespace CacheService

namespace Cache

open Remote (Network)

/-! ## Operations -/

/-- What an application asks of a cache, with values of any type. -/
inductive Op : Type 1
  | init
  | get {α : Type} (d : Diagnostics) (codec : Codec α) (key : String)
  | getMany {α : Type} (d : Diagnostics) (codec : Codec α) (keys : List String)
  | set {α : Type} (codec : Codec α) (key : String) (value : α) (ttl : UInt32)
  | setFor {α : Type} (codec : Codec α) (key : String) (value : α) (expiration : String)
  | delete (key : String)
  | clear
  | stats
  | state
  | stop

/-- What an operation answers. -/
inductive Answer : Type 1
  | outcome (r : Except CacheError Unit)
  | value {α : Type} (x : Option α)
  | values {α : Type} (xs : List (String × α))
  | stats (s : Option Stats)
  | state (name : String)

/-- Whether an operation has the backend built if it is not there. -/
def Op.needsBackend : Op → Bool
  | .init | .get .. | .getMany .. | .set .. | .delete _ => true
  | .setFor _ _ _ expiration => (Duration.parse expiration).toBool
  | .clear | .stats | .state | .stop => false

/-- Whether an operation is a stop. -/
def Op.isStop : Op → Bool
  | .stop => true
  | _ => false

/-- The call that an operation makes on a backend in use. -/
def Op.call? : Op → Option Backend.Call
  | .get _ _ key => some (.get key)
  | .getMany _ _ keys => some (.getMany keys)
  | .set codec key value ttl => (codec.encode? value).toOption.map (.set key · ttl)
  | .setFor codec key value expiration =>
    match Duration.parse expiration with
    | .ok ttl => (codec.encode? value).toOption.map (.set key · ttl)
    | .error _ => none
  | .delete key => some (.delete key)
  | .clear => some .clear
  | .stop => some .stop
  | .init | .stats | .state => none

/-- What an operation answers that no backend serves: reads miss, there are no
counters, and an expression that cannot be read is refused as such. All else has the
given outcome. -/
def Op.unserved (op : Op) (c : Cache) (r : Except CacheError Unit) : Answer :=
  match op with
  | @Op.get α _ _ _ => .value (none : Option α)
  | @Op.getMany α _ _ _ => .values ([] : List (String × α))
  | .setFor _ _ _ expiration =>
    match Duration.parse expiration with
    | .ok _ => .outcome r
    | .error e => .outcome (.error e)
  | .stats => .stats none
  | .state => .state c.stateName
  | .init | .set .. | .delete _ | .clear | .stop => .outcome r

/-! ## Phases -/

/-- The phases of a cache, in the order in which it goes through them. -/
inductive Phase
  | uninitialized
  | active
  | stopped
  deriving DecidableEq, Repr

/-- The order in which a cache goes through its phases. -/
def Phase.rank : Phase → Nat
  | .uninitialized => 0
  | .active => 1
  | .stopped => 2

/-- The phase that a cache is in. -/
def phase (c : Cache) : Phase :=
  match c.state with
  | .uninitialized => .uninitialized
  | .active _ _ => .active
  | .stopped => .stopped

/-! ## The backend of a phase -/

variable {σ : Type} {c : Cache} {w : World σ} {b : Backend} {sweep : Option Sweep} {e : CacheError}

/-- The cache with its backend just built. -/
def built (c : Cache) (b : Backend) (w : World σ) : Cache :=
  { c with state := .active b (c.newSweep w.timer) }

/-- `activate` has the backend built, and goes on as on a cache in use. -/
theorem activate_built (hstate : c.state = .uninitialized)
    (hb : Backend.ofConfig c.config = .ok b) :
    c.activate w = (c.built b w).activate (w.tell (buildNotices c.config)) := by
  simp [activate, built, hstate, hb]

/-- So does `onBackend`. -/
theorem onBackend_built {α : Type} (hstate : c.state = .uninitialized)
    (hb : Backend.ofConfig c.config = .ok b) (f : Backend → World σ → α × Backend × World σ) :
    c.onBackend w f = (c.built b w).onBackend (w.tell (buildNotices c.config)) f := by
  unfold onBackend
  rw [activate_built hstate hb]

/-- So does `init`. -/
theorem init_built (hstate : c.state = .uninitialized) (hb : Backend.ofConfig c.config = .ok b) :
    c.init w = (c.built b w).init (w.tell (buildNotices c.config)) := by
  unfold init
  rw [activate_built hstate hb]

/-- `activate` finds the backend in use. -/
theorem activate_active (hstate : c.state = .active b sweep) :
    c.activate w = (.ok (b, sweep), c, w) := by
  simp only [activate, hstate]

/-- `onBackend` passes a call on to it. -/
theorem onBackend_active {α : Type} (hstate : c.state = .active b sweep)
    (f : Backend → World σ → α × Backend × World σ) :
    c.onBackend w f =
      (.ok (f b w).1, { c with state := .active (f b w).2.1 sweep }, (f b w).2.2) := by
  unfold onBackend
  rw [activate_active hstate]

theorem init_active (hstate : c.state = .active b sweep) : c.init w = (.ok (), c, w) := by
  unfold init
  rw [activate_active hstate]

/-- `activate` refuses on a cache that has been stopped. -/
theorem activate_stopped (hstate : c.state = .stopped) (w : World σ) :
    c.activate w = (.error (.illegalState .cacheStopped), c, w) := by
  simp only [activate, hstate]

/-- What `activate` refuses, `onBackend` does. -/
theorem onBackend_refused {α : Type} (h : c.activate w = (.error e, c, w))
    (f : Backend → World σ → α × Backend × World σ) : c.onBackend w f = (.error e, c, w) := by
  unfold onBackend
  rw [h]

theorem init_refused (h : c.activate w = (.error e, c, w)) : c.init w = (.error e, c, w) := by
  unfold init
  rw [h]

/-- The cache and its surroundings after an operation that makes a call, or none, on a
backend in use. -/
def Passes (c : Cache) (sweep : Option Sweep) (left : Backend × World σ)
    (result : Cache × World σ) :
    Prop :=
  ∃ notices, result = ({ c with state := .active left.1 sweep }, left.2.tell notices)

theorem tell_nil (w : World σ) : w.tell [] = w := by
  rw [World.tell, List.append_nil]

/-- `Passes` where nothing is told. -/
theorem passes_rfl (c : Cache) (sweep : Option Sweep) (left : Backend × World σ) :
    c.Passes sweep left ({ c with state := .active left.1 sweep }, left.2) :=
  ⟨[], by rw [tell_nil]⟩

theorem passes_told (c : Cache) (sweep : Option Sweep) (left : Backend × World σ)
    (notices : List Notice) :
    c.Passes sweep left ({ c with state := .active left.1 sweep }, left.2.tell notices) :=
  ⟨notices, rfl⟩

/-- `Passes` where the backend is not called. -/
theorem passes_nothing (hstate : c.state = .active b sweep) (notices : List Notice) :
    c.Passes sweep (b, w) (c, w.tell notices) :=
  ⟨notices, by rw [← hstate]⟩

/-! ## What operations do -/

variable [Network σ]

/-- The answer of an operation, with the cache and its surroundings after it. -/
def perform (c : Cache) (w : World σ) : Op → Answer × Cache × World σ
  | .init => (.outcome (c.init w).1, (c.init w).2)
  | .get d codec key => (.value (c.get w d codec key).1, (c.get w d codec key).2)
  | .getMany d codec keys => (.values (c.getMany w d codec keys).1, (c.getMany w d codec keys).2)
  | .set codec key value ttl =>
    (.outcome (c.set w codec key value ttl).1, (c.set w codec key value ttl).2)
  | .setFor codec key value expiration =>
    (.outcome (c.setFor w codec key value expiration).1, (c.setFor w codec key value expiration).2)
  | .delete key => (.outcome (c.delete w key).1, (c.delete w key).2)
  | .clear => (.outcome (c.clear w).1, (c.clear w).2)
  | .stats => (.stats c.stats, c, w)
  | .state => (.state c.stateName, c, w)
  | .stop => (.outcome (c.stop w).1, (c.stop w).2)

/-- A backend in use, and its surroundings, after what an operation does to it. -/
def Op.use (op : Op) (b : Backend) (w : World σ) : Backend × World σ :=
  match op.call? with
  | some call => (b.perform w call).2
  | none => (b, w)

/-! ### Before the first use -/

/-- A write on a cache that has not been used has its backend built. -/
theorem set_built {α : Type} (hstate : c.state = .uninitialized)
    (hb : Backend.ofConfig c.config = .ok b) (codec : Codec α) (key : String) (value : α)
    (ttl : UInt32) :
    c.set w codec key value ttl =
      (c.built b w).set (w.tell (buildNotices c.config)) codec key value ttl := by
  unfold set
  cases codec.encode? value with
  | ok bytes => simp only [onBackend_built hstate hb]
  | error e => simp only [init_built hstate hb]

/-- **An operation that needs a backend** has it built, and goes on as on a cache in
use. -/
theorem perform_built (hstate : c.state = .uninitialized) (hb : Backend.ofConfig c.config = .ok b)
    {op : Op} (hneeds : op.needsBackend = true) :
    c.perform w op = (c.built b w).perform (w.tell (buildNotices c.config)) op := by
  cases op with
  | init => simp only [perform, init_built hstate hb]
  | get d codec key => simp only [perform, get, onBackend_built hstate hb]
  | getMany d codec keys => simp only [perform, getMany, onBackend_built hstate hb]
  | set codec key value ttl => simp only [perform, set_built hstate hb]
  | setFor codec key value expiration =>
      cases hparse : Duration.parse expiration with
      | ok ttl => simp only [perform, setFor, hparse, set_built hstate hb]
      | error e => simp [Op.needsBackend, hparse, Except.toBool] at hneeds
  | delete key => simp only [perform, delete, onBackend_built hstate hb]
  | clear => contradiction
  | stats => contradiction
  | state => contradiction
  | stop => contradiction

/-- **An operation that needs no backend** (`needsBackend`) finds nothing to do before
the first use. -/
theorem perform_idle (hstate : c.state = .uninitialized) {op : Op} (hidle : op.needsBackend = false)
    (hruns : op.isStop = false) : c.perform w op = (op.unserved c (.ok ()), c, w) := by
  cases op with
  | setFor codec key value expiration =>
      cases hparse : Duration.parse expiration with
      | ok ttl => simp [Op.needsBackend, hparse, Except.toBool] at hidle
      | error e => simp only [perform, setFor, hparse, Op.unserved]
  | clear => simp only [perform, clear, hstate, Op.unserved]
  | stats => simp only [perform, stats, hstate, Op.unserved]
  | state => rfl
  | _ => contradiction

/-! ### Without a backend -/

/-- A write that cannot have its backend fails with the reason. -/
theorem set_refused {α : Type} (h : c.activate w = (.error e, c, w)) (codec : Codec α)
    (key : String)
    (value : α) (ttl : UInt32) : c.set w codec key value ttl = (.error e, c, w) := by
  unfold set
  cases codec.encode? value with
  | ok bytes => simp only [onBackend_refused h, flatten]
  | error e' => simp only [init_refused h]

/-- **An operation that cannot have its backend** fails with the reason of that, or
misses. Nothing changes, and only a read reports a reason other than a stop. -/
theorem perform_refused (h : c.activate w = (.error e, c, w)) {op : Op}
    (hneeds : op.needsBackend = true) :
    ∃ notices, c.perform w op = (op.unserved c (.error e), c, w.tell notices) ∧
      (e.isIllegalState = true → notices = []) := by
  have hquiet (hanswer : c.perform w op = (op.unserved c (.error e), c, w)) :
      ∃ notices, c.perform w op = (op.unserved c (.error e), c, w.tell notices) ∧
        (e.isIllegalState = true → notices = []) :=
    ⟨[], by rw [hanswer, World.tell, List.append_nil], fun _ => rfl⟩
  cases op with
  | init => exact hquiet (by simp only [perform, init_refused h, Op.unserved])
  | get d codec key =>
      by_cases he : e.isIllegalState = true
      · exact hquiet (by simp only [perform, get, onBackend_refused h, if_pos he, Op.unserved])
      · exact ⟨_, by simp only [perform, get, onBackend_refused h, if_neg he, Op.unserved]; rfl,
          fun hstate => absurd hstate he⟩
  | getMany d codec keys =>
      exact hquiet (by simp only [perform, getMany, onBackend_refused h, Op.unserved])
  | set codec key value ttl => exact hquiet (by simp only [perform, set_refused h, Op.unserved])
  | setFor codec key value expiration =>
      cases hparse : Duration.parse expiration with
      | ok ttl => exact hquiet (by simp only [perform, setFor, hparse, set_refused h, Op.unserved])
      | error e' => simp [Op.needsBackend, hparse, Except.toBool] at hneeds
  | delete key =>
      exact hquiet (by simp only [perform, delete, onBackend_refused h, flatten, Op.unserved])
  | clear => contradiction
  | stats => contradiction
  | state => contradiction
  | stop => contradiction

/-- **A backend that cannot be built** leaves the cache as it is. -/
theorem perform_failed (hstate : c.state = .uninitialized)
    (hb : Backend.ofConfig c.config = .error e)
    {op : Op} (hneeds : op.needsBackend = true) :
    ∃ notices, c.perform w op = (op.unserved c (.error e), c, w.tell notices) := by
  have hactivate : c.activate w = (.error e, c, w) := by simp only [activate, hstate, hb]
  obtain ⟨notices, hanswer, -⟩ := perform_refused hactivate hneeds
  exact ⟨notices, hanswer⟩

/-- **A cache that has been stopped** refuses, and reaches nothing: what it answers is
`Op.unserved`. -/
theorem perform_stopped (hstate : c.state = .stopped) {op : Op} (hruns : op.isStop = false) :
    c.perform w op = (op.unserved c (.error (.illegalState .cacheStopped)), c, w) := by
  have hactivate := activate_stopped hstate w
  cases hneeds : op.needsBackend with
  | true =>
      obtain ⟨notices, hanswer, hquiet⟩ := perform_refused hactivate hneeds
      rw [hanswer, hquiet rfl, World.tell, List.append_nil]
  | false =>
      cases op with
      | setFor codec key value expiration =>
          cases hparse : Duration.parse expiration with
          | ok ttl => simp [Op.needsBackend, hparse, Except.toBool] at hneeds
          | error e => simp [perform, setFor, hparse, Op.unserved]
      | clear => simp [perform, clear, hstate, Op.unserved]
      | stats => simp [perform, stats, hstate, Op.unserved]
      | state => simp [perform, Op.unserved]
      | _ => contradiction

/-! ### In use -/

/-- A write `Passes` its value on, if it can be encoded. -/
theorem passes_set {α : Type} (hstate : c.state = .active b sweep) (codec : Codec α) (key : String)
    (value : α) (ttl : UInt32) :
    c.Passes sweep ((Op.set codec key value ttl).use b w) (c.set w codec key value ttl).2 := by
  unfold set
  cases hbytes : codec.encode? value with
  | ok bytes =>
      simp only [Op.use, Op.call?, hbytes, Except.toOption, Option.map_some,
        onBackend_active hstate]
      exact passes_rfl ..
  | error e =>
      simp only [Op.use, Op.call?, hbytes, Except.toOption, Option.map_none, init_active hstate]
      exact passes_nothing hstate _

/-- **A cache in use** passes an operation on to its backend (`Op.use`), and keeps it. -/
theorem perform_active (hstate : c.state = .active b sweep) {op : Op} (hruns : op.isStop = false) :
    c.Passes sweep (op.use b w) (c.perform w op).2 := by
  have hidle : c.Passes sweep (b, w) (c, w) := by
    have hnothing := passes_nothing (w := w) hstate []
    rwa [tell_nil] at hnothing
  cases op with
  | init =>
      simp only [perform, init_active hstate]
      exact hidle
  | get d codec key =>
      simp only [perform, get, onBackend_active hstate]
      cases (b.get w key).1 with
      | error e => exact passes_told ..
      | ok found =>
          cases found with
          | none => exact passes_rfl ..
          | some bytes => exact passes_told ..
  | getMany d codec keys =>
      simp only [perform, getMany, onBackend_active hstate]
      cases (b.getMany w keys).1 with
      | error e => exact passes_told ..
      | ok found => exact passes_told ..
  | set codec key value ttl => exact passes_set hstate codec key value ttl
  | setFor codec key value expiration =>
      cases hparse : Duration.parse expiration with
      | ok ttl =>
          have hset := passes_set (w := w) hstate codec key value ttl
          simpa only [perform, setFor, Op.use, Op.call?, hparse] using hset
      | error e =>
          simp only [perform, setFor, Op.use, Op.call?, hparse]
          exact hidle
  | delete key =>
      simp only [perform, delete, onBackend_active hstate]
      exact passes_rfl ..
  | clear =>
      simp only [perform, clear, hstate]
      exact passes_rfl ..
  | stats => exact hidle
  | state => exact hidle
  | stop => contradiction

/-! ## Runs -/

/-- A step in the life of a cache, in the surroundings it finds. -/
inductive Step (σ : Type) : Type 1
  | op (w : World σ) (op : Op)
  /-- Time passes, and the sweep runs if it is due. -/
  | elapse (w : World σ) (millis : Int)
  /-- The workers of a remote backend run what is queued. -/
  | drain (w : World σ)

/-- The cache after a step. -/
def step (c : Cache) : Step σ → Cache
  | .op w op => (c.perform w op).2.1
  | .elapse w millis => (c.advance w millis).1
  | .drain w => (c.quiesce w).1

/-- The cache after some steps. -/
def after (c : Cache) (steps : List (Step σ)) : Cache := steps.foldl step c

/-- The operation of a step. -/
def Step.op? : Step σ → Option Op
  | .op _ asked => some asked
  | .elapse .. | .drain _ => none

/-- The steps of a run that lead from phase `p` to phase `q`. -/
def crossings (p q : Phase) (c : Cache) : List (Step σ) → Nat
  | [] => 0
  | st :: steps =>
    (if c.phase = p ∧ (c.step st).phase = q then 1 else 0) + (c.step st).crossings p q steps

/-- The phase after some operations: a stop is for good, and the backend is built by the
first operation that needs it, if it can be. -/
def Phase.ofOps (buildable : Bool) (ops : List Op) : Phase :=
  if ops.any Op.isStop then .stopped
  else if buildable && ops.any Op.needsBackend then .active
  else .uninitialized

/-- The phase after one more operation. -/
def Phase.next (buildable : Bool) (p : Phase) (op : Op) : Phase :=
  if op.isStop then .stopped
  else if p = .uninitialized ∧ buildable && op.needsBackend then .active
  else p

/-- What holds of a cache all its life: it keeps its configuration, and the backend in
use has not been stopped (`isOpen`). -/
structure Sound (config : BackendConfig) (c : Cache) : Prop where
  config : c.config = config
  isOpen : ∀ b sweep, c.state = .active b sweep → b.isOpen = true

variable {config : BackendConfig}

theorem call?_ne_stop {op : Op} (hruns : op.isStop = false) : op.call? ≠ some .stop := by
  cases op with
  | setFor codec key value expiration =>
      cases hparse : Duration.parse expiration <;> simp [Op.call?, hparse]
  | stop => contradiction
  | _ => simp [Op.call?]

/-- An operation other than a stop leaves the backend open. -/
theorem isOpen_use {op : Op} (hopen : b.isOpen = true) (hruns : op.isStop = false) (w : World σ) :
    (op.use b w).1.isOpen = true := by
  unfold Op.use
  cases hcall : op.call? with
  | none => exact hopen
  | some call =>
      have hstop : call ≠ .stop := by
        rintro rfl
        exact call?_ne_stop hruns hcall
      exact (Backend.isOpen_perform b w hstop).trans hopen

/-- `Sound` on a cache in use. -/
theorem sound_passes (h : c.Sound config) (hstate : c.state = .active b sweep) {op : Op}
    (hruns : op.isStop = false) :
    (c.perform w op).2.1.Sound config ∧ (c.perform w op).2.1.phase = .active := by
  obtain ⟨notices, hleft⟩ := perform_active (w := w) hstate hruns
  rw [hleft]
  refine ⟨⟨h.config, fun b' sweep' hb' => ?_⟩, rfl⟩
  obtain ⟨rfl, -⟩ := State.active.inj hb'
  exact isOpen_use (h.isOpen b sweep hstate) hruns w

/-- **A stop** succeeds in every phase, and stops the backend in use. -/
theorem perform_stop (h : c.Sound config) (w : World σ) :
    (c.perform w .stop).1 = .outcome (.ok ()) ∧
      (c.perform w .stop).2.1 = { c with state := .stopped } ∧
      (c.perform w .stop).2.2 =
        match c.state with
        | .active b _ => (Op.stop.use b w).2
        | .uninitialized | .stopped => w := by
  cases hstate : c.state with
  | uninitialized => simp [perform, stop, hstate]
  | active b sweep =>
      have hstopped : (b.stop w).1 = .ok () := Backend.stop_of_isOpen (h.isOpen b sweep hstate) w
      obtain ⟨r, b', w', hresult⟩ : ∃ r b' w', b.stop w = (r, b', w') := ⟨_, _, _, rfl⟩
      obtain rfl : r = .ok () := by simpa [hresult] using hstopped
      simp [perform, stop, hstate, Op.use, Op.call?, Backend.perform, hresult]
  | stopped => simp [perform, stop, hstate]

omit [Network σ] in

/-- `Sound` when the backend has been built. -/
theorem sound_built (h : c.Sound config) (hb : Backend.ofConfig c.config = .ok b) :
    (c.built b w).Sound config := by
  refine ⟨h.config, fun b' sweep' hb' => ?_⟩
  obtain ⟨rfl, -⟩ := State.active.inj hb'
  exact Backend.isOpen_ofConfig hb

/-- **One operation** keeps a cache `Sound`, and takes its phase on as `Phase.next`
says. -/
theorem sound_perform (h : c.Sound config) (w : World σ) (op : Op) :
    (c.perform w op).2.1.Sound config ∧
      (c.perform w op).2.1.phase = c.phase.next (Backend.ofConfig config).toBool op := by
  cases hruns : op.isStop with
  | true =>
      obtain rfl : op = .stop := by cases op <;> simp_all [Op.isStop]
      rw [(perform_stop h w).2.1]
      exact ⟨⟨h.config, by simp⟩, rfl⟩
  | false =>
      cases hstate : c.state with
      | uninitialized =>
          have hphase : c.phase = .uninitialized := by simp only [phase, hstate]
          cases hneeds : op.needsBackend with
          | false =>
              rw [perform_idle hstate hneeds hruns]
              exact ⟨h, by simp [hphase, Phase.next, hruns, hneeds]⟩
          | true =>
              cases hb : Backend.ofConfig config with
              | error e =>
                  obtain ⟨notices, hanswer⟩ := perform_failed (w := w) hstate (h.config ▸ hb) hneeds
                  rw [hanswer]
                  exact ⟨h, by simp [hphase, Phase.next, hruns, Except.toBool]⟩
              | ok b =>
                  rw [perform_built hstate (h.config ▸ hb) hneeds]
                  have hbuilt := sound_passes (w := w.tell (buildNotices c.config))
                    (sound_built (w := w) h (h.config ▸ hb)) rfl hruns
                  exact ⟨hbuilt.1,
                    by simp [hbuilt.2, hphase, Phase.next, hruns, hneeds, Except.toBool]⟩
      | active b sweep =>
          have hphase : c.phase = .active := by simp only [phase, hstate]
          obtain ⟨hsound, hactive⟩ := sound_passes (w := w) h hstate hruns
          exact ⟨hsound, by simp [hactive, hphase, Phase.next, hruns]⟩
      | stopped =>
          rw [perform_stopped hstate hruns]
          exact ⟨h, by simp [phase, hstate, Phase.next, hruns]⟩

/-- A sweep leaves the backend open. -/
theorem isOpen_tick? (hopen : b.isOpen = true) (sweep : Option Sweep) (w : World σ) :
    (Sweep.tick? sweep b w).2.1.isOpen = true := by
  have hruns : Backend.Call.cleanup ≠ .stop := by simp
  have hcleanup : (b.cleanup w).2.1.isOpen = true := (Backend.isOpen_perform b w hruns).trans hopen
  cases sweep with
  | none => exact hopen
  | some s =>
      unfold Sweep.tick? Sweep.tick
      dsimp only
      split
      · cases hresult : b.cleanup w with
        | mk r rest =>
            rw [hresult] at hcleanup
            cases r <;> exact hcleanup
      · exact hopen

/-- What happens behind the back of an application keeps `Sound` and the phase. -/
theorem sound_advance (h : c.Sound config) (w : World σ) (millis : Int) :
    (c.advance w millis).1.Sound config ∧ (c.advance w millis).1.phase = c.phase := by
  unfold advance
  cases hstate : c.state with
  | active b sweep =>
      refine ⟨⟨h.config, fun b' sweep' hb' => ?_⟩, by simp [phase, hstate]⟩
      obtain ⟨rfl, -⟩ := State.active.inj hb'
      exact isOpen_tick? (h.isOpen b sweep hstate) sweep (w.advance millis)
  | _ => exact ⟨h, rfl⟩

theorem sound_quiesce (h : c.Sound config) (w : World σ) :
    (c.quiesce w).1.Sound config ∧ (c.quiesce w).1.phase = c.phase := by
  unfold quiesce
  cases hstate : c.state with
  | active b sweep =>
      cases b with
      | remote cluster =>
          refine ⟨⟨h.config, fun b' sweep' hb' => ?_⟩, by simp [phase, hstate]⟩
          obtain ⟨rfl, -⟩ := State.active.inj hb'
          have hopen := h.isOpen (.remote cluster) sweep hstate
          have hstopped := Remote.Live.stopped_quiesce (Backend.live cluster w)
          simp only [Backend.isOpen, Bool.not_eq_true'] at hopen ⊢
          exact hstopped.trans hopen
      | _ => exact ⟨h, rfl⟩
  | _ => exact ⟨h, rfl⟩

/-- The phase after one more step. -/
def Phase.nextStep (buildable : Bool) (p : Phase) (st : Step σ) : Phase :=
  match st.op? with
  | some op => p.next buildable op
  | none => p

/-- **One step** keeps a cache `Sound`, and takes its phase on as `Phase.nextStep` says. -/
theorem sound_step (h : c.Sound config) (st : Step σ) :
    (c.step st).Sound config ∧
      (c.step st).phase = c.phase.nextStep (Backend.ofConfig config).toBool st := by
  cases st with
  | op w op => exact sound_perform h w op
  | elapse w millis => exact sound_advance h w millis
  | drain w => exact sound_quiesce h w

omit [Network σ] in

/-- No step leads back to an earlier phase. -/
theorem rank_nextStep (buildable : Bool) (p : Phase) (st : Step σ) :
    p.rank ≤ (p.nextStep buildable st).rank := by
  unfold Phase.nextStep Phase.next
  cases st.op? with
  | none => exact le_rfl
  | some op =>
      dsimp only
      split
      · cases p <;> decide
      · split
        · rename_i hbuilds
          rw [hbuilds.1]
          decide
        · exact le_rfl

/-- **A run** keeps a cache `Sound`. -/
theorem Sound.after (h : c.Sound config) (steps : List (Step σ)) :
    (c.after steps).Sound config := by
  induction steps generalizing c with
  | nil => exact h
  | cons st steps ih => exact ih (sound_step h st).1

/-- A new cache is `Sound`. -/
theorem sound_fresh (config : BackendConfig) (interval : Span) (hasTimer : Bool) :
    Sound config { config, cleanupInterval := interval, hasTimer } := ⟨rfl, by simp⟩

/-- The phase after one more operation is the `Phase.next` one. -/
theorem ofOps_append (buildable : Bool) (ops : List Op) (op : Op) :
    Phase.ofOps buildable (ops ++ [op]) = (Phase.ofOps buildable ops).next buildable op := by
  unfold Phase.ofOps Phase.next
  simp only [List.any_append, List.any_cons, List.any_nil, Bool.or_false]
  cases op.isStop <;> cases ops.any Op.isStop <;> cases buildable <;>
    cases ops.any Op.needsBackend <;> cases op.needsBackend <;> rfl

/-- The phase after a run of a cache that has not been used is that of its operations
(`Phase.ofOps`). -/
theorem phase_after (h : c.Sound config) (hfresh : c.state = .uninitialized)
    (steps : List (Step σ)) :
    (c.after steps).phase =
      Phase.ofOps (Backend.ofConfig config).toBool (steps.filterMap Step.op?) := by
  induction steps using List.reverseRecOn with
  | nil => simp [after, phase, hfresh, Phase.ofOps]
  | append_singleton steps st ih =>
      have hstep := (sound_step (h.after steps) st).2
      have hafter : c.after (steps ++ [st]) = (c.after steps).step st := by simp [after]
      rw [hafter, hstep, ih]
      unfold Phase.nextStep
      cases hop : st.op? with
      | none => simp [hop]
      | some op =>
          simp only [List.filterMap_append, List.filterMap_cons, hop, List.filterMap_nil,
            ofOps_append]

/-- A phase whose `rank` is behind that of a cache is not left again. -/
theorem crossings_of_rank_lt {p q : Phase} (h : c.Sound config) (hbehind : p.rank < c.phase.rank)
    (steps : List (Step σ)) : c.crossings p q steps = 0 := by
  induction steps generalizing c with
  | nil => rfl
  | cons st steps ih =>
      obtain ⟨hsound, hphase⟩ := sound_step h st
      have hlater : p.rank < (c.step st).phase.rank := by
        rw [hphase]
        exact hbehind.trans_le (rank_nextStep ..)
      have hnot : c.phase ≠ p := by
        rintro rfl
        exact absurd hbehind (lt_irrefl _)
      simp only [crossings, hnot, false_and, if_false, ih hsound hlater]

/-- The way from one phase on to another is taken at most once. -/
theorem crossings_le_one {p q : Phase} (h : c.Sound config) (hforward : p.rank < q.rank)
    (steps : List (Step σ)) : c.crossings p q steps ≤ 1 := by
  induction steps generalizing c with
  | nil => exact Nat.zero_le 1
  | cons st steps ih =>
      have hsound := (sound_step h st).1
      unfold crossings
      split
      · rename_i hcrosses
        rw [crossings_of_rank_lt hsound (hcrosses.2 ▸ hforward)]
      · rw [Nat.zero_add]
        exact ih hsound

/-- What an operation does to a cache, in each of its phases. -/
structure Behaves (config : BackendConfig) (c : Cache) (w : World σ) (op : Op) : Prop where
  /-- The first operation that needs the backend has it built, and is then served. -/
  builds : ∀ b, c.state = .uninitialized → Backend.ofConfig config = .ok b →
    op.needsBackend = true →
    c.perform w op = (c.built b w).perform (w.tell (buildNotices config)) op
  /-- A backend that cannot be built is an error, or a miss, and nothing else. -/
  fails : ∀ e, c.state = .uninitialized → Backend.ofConfig config = .error e →
    op.needsBackend = true →
    ∃ notices, c.perform w op = (op.unserved c (.error e), c, w.tell notices)
  idles : c.state = .uninitialized → op.needsBackend = false → op.isStop = false →
    c.perform w op = (op.unserved c (.ok ()), c, w)
  /-- The backend in use stays, and has the call of the operation. -/
  passes : ∀ b sweep, c.state = .active b sweep → op.isStop = false →
    c.Passes sweep (op.use b w) (c.perform w op).2
  refuses : c.state = .stopped → op.isStop = false →
    c.perform w op = (op.unserved c (.error (.illegalState .cacheStopped)), c, w)
  stops : op.isStop = true → c.perform w op = (.outcome (.ok ()), { c with state := .stopped },
    match c.state with
    | .active b _ => (Op.stop.use b w).2
    | .uninitialized | .stopped => w)

/-- Every operation on a `Sound` cache `Behaves`. -/
theorem Sound.behaves (h : c.Sound config) (w : World σ) (op : Op) : c.Behaves config w op where
  builds b hstate hb hneeds := by
    obtain rfl := h.config
    exact perform_built hstate hb hneeds
  fails e hstate hb hneeds := perform_failed hstate (h.config ▸ hb) hneeds
  idles hstate hidle hruns := perform_idle hstate hidle hruns
  passes b sweep hstate hruns := perform_active hstate hruns
  refuses hstate hruns := perform_stopped hstate hruns
  stops hstop := by
    obtain rfl : op = .stop := by cases op <;> simp_all [Op.isStop]
    obtain ⟨hanswer, hcache, hworld⟩ := perform_stop h w
    exact Prod.ext hanswer (Prod.ext hcache hworld)

/-- **The life of a cache**, whatever its configuration. Take any run of a fresh cache:
operations, each in surroundings of its own, while time passes and workers run. A stop
is for good. Else the cache is in use from the first operation that needs the backend,
if it can be built, and unused before that. A phase is never left for an earlier one;
the backend is built at most once in a run, and at most once a stop finds it in use.
And whatever the run has come to, the next operation does what `Behaves` says. -/
theorem lifecycle (config : BackendConfig) (interval : Span) (hasTimer : Bool)
    (steps : List (Step σ)) :
    let fresh : Cache := { config, cleanupInterval := interval, hasTimer }
    let c := fresh.after steps
    c.phase = Phase.ofOps (Backend.ofConfig config).toBool (steps.filterMap Step.op?) ∧
      (∀ st : Step σ, c.phase.rank ≤ (c.step st).phase.rank) ∧
      fresh.crossings .uninitialized .active steps ≤ 1 ∧
        fresh.crossings .active .stopped steps ≤ 1 ∧
      (∀ b sweep, c.state = .active b sweep → ∀ w : World σ, (b.stop w).1 = .ok ()) ∧
      ∀ (w : World σ) (op : Op), c.Behaves config w op := by
  intro fresh c
  have hfresh : fresh.Sound config := sound_fresh config interval hasTimer
  have hc : c.Sound config := hfresh.after steps
  refine ⟨phase_after hfresh rfl steps, fun st => ?_, crossings_le_one hfresh (by decide) steps,
    crossings_le_one hfresh (by decide) steps,
    fun b sweep hstate w => Backend.stop_of_isOpen (hc.isOpen b sweep hstate) w, hc.behaves⟩
  rw [(sound_step hc st).2]
  exact rank_nextStep ..

end Cache

end CacheService
