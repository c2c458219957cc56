import CacheService.Cache.Sweep
import CacheService.Codec
import CacheService.Diagnostics

/-!
# CacheService.Cache.Basic

The cache that an application talks to. It builds its backend on first use
(`Cache.activate`), writes and reads typed values through a `Codec`, and is stopped once
and for all. Reads are advisory: whatever goes wrong with one, it is a miss, and the
operator is told. Writes to a stopped cache fail.

Reads, writes and deletes go through `Cache.onBackend`; `clear`, `stop` and `stats` are
not reason enough to build a backend. The sweep of a local backend begins with it and
runs as time passes (`Cache.advance`).
-/

namespace CacheService

/-- Where a cache is in its life. -/
inductive Cache.State
  | uninitialized
  | active (backend : Backend) (sweep : Option Sweep)
  | stopped

/-- A cache with its configuration. -/
structure Cache where
  config : BackendConfig
  /-- Time between two sweeps of a local backend, zero for none. -/
  cleanupInterval : Span := .ofSeconds 1
  /-- Whether there is a timer that a sweep could sleep on. -/
  hasTimer : Bool := true
  state : Cache.State := .uninitialized

namespace Cache

open Remote (Network)

/-- A cache that has not been used. -/
def create (config : BackendConfig) : Cache := { config }

/-- The short name of the backend. -/
def backendName (c : Cache) : String := c.config.name

/-- The name of the state. -/
def stateName (c : Cache) : String :=
  match c.state with
  | .uninitialized => "uninitialized"
  | .active _ _ => "active"
  | .stopped => "stopped"

/-- Whether the process has gone down with the backend in use. -/
def hasCrashed (c : Cache) : Bool :=
  match c.state with
  | .active b _ => b.hasCrashed
  | .uninitialized | .stopped => false

/-- The cache in one line. -/
def text (c : Cache) : String :=
  "Cache \x7b backend: " ++ Text.quoted c.backendName
    ++ ", cleanup_interval: " ++ c.cleanupInterval.text ++ ", .. \x7d"

variable {σ : Type} [Network σ] {α : Type}

/-! ## The backend -/

/-- The sweep of a new backend: only local ones have something to sweep. -/
def newSweep (c : Cache) (timer : Nat) : Option Sweep :=
  match c.config with
  | .localTiers _ =>
    if c.cleanupInterval.isZero || !c.hasTimer then none
    else some (.start c.cleanupInterval.millis timer)
  | _ => none

/-- What the operator is told when a backend is built. -/
def buildNotices : BackendConfig → List Notice
  | .disabled => [.warn "No cache backend configured, caching is disabled"]
  | _ => []

/-- Builds the backend unless it is there; a stopped cache has none. -/
def activate (c : Cache) (w : World σ) :
    Except CacheError (Backend × Option Sweep) × Cache × World σ :=
  match c.state with
  | .active b sweep => (.ok (b, sweep), c, w)
  | .stopped => (.error (.illegalState .cacheStopped), c, w)
  | .uninitialized =>
    match Backend.ofConfig c.config with
    | .error e => (.error e, c, w)
    | .ok b =>
      let sweep := c.newSweep w.timer
      (.ok (b, sweep), { c with state := .active b sweep }, w.tell (buildNotices c.config))

/-- Runs a call of the backend, building it first if need be. -/
def onBackend (c : Cache) (w : World σ) (f : Backend → World σ → α × Backend × World σ) :
    Except CacheError α × Cache × World σ :=
  match c.activate w with
  | (.error e, c, w) => (.error e, c, w)
  | (.ok (b, sweep), c, w) =>
    let (x, b, w) := f b w
    (.ok x, { c with state := .active b sweep }, w)

/-- Builds the backend if it is not there. -/
def init (c : Cache) (w : World σ) : Except CacheError Unit × Cache × World σ :=
  match c.activate w with
  | (.error e, c, w) => (.error e, c, w)
  | (.ok _, c, w) => (.ok (), c, w)

/-! ## Reads -/

/-- The span in which a value of a remote backend is read, if it is to carry a
diagnostic field. -/
def decodeScope (c : Cache) (d : Diagnostics) (key : String) : Option Scope :=
  match c.config with
  | .remote settings =>
    settings.mdcParameter.map fun name =>
      ⟨"cache_decode",
        [("key", key), ("mdc.name", name), ("mdc.value", (d.current? name).getD "?")]⟩
  | _ => none

/-- Reads a value from its bytes; bytes that do not read are a miss. -/
def decode (c : Cache) (d : Diagnostics) (codec : Codec α) (key : String) (bytes : ByteArray) :
    Option α × List Notice :=
  match codec.decode? bytes with
  | .ok x => (some x, [])
  | .error e =>
    (none,
      [{ Notice.error ("Could not deserialize cached value, reporting a miss: " ++ e.message) with
      fields := [("key", key)]
      scope := c.decodeScope d key }])

/-- Reads the value under a key, or misses. -/
def get (c : Cache) (w : World σ) (d : Diagnostics) (codec : Codec α) (key : String) :
    Option α × Cache × World σ :=
  match c.onBackend w (·.get · key) with
  | (.error e, c, w) =>
    if e.isIllegalState then (none, c, w)
    else
      (none, c, w.tell [{ Notice.error ("Cache unavailable, reporting a miss: " ++ e.message) with
        fields := [("key", key)] }])
  | (.ok (.error e), c, w) =>
    (none, c, w.tell [{ Notice.warn ("Cache read failed, reporting a miss: " ++ e.message) with
      fields := [("key", key), ("backend", c.backendName)] }])
  | (.ok (.ok none), c, w) => (none, c, w)
  | (.ok (.ok (some bytes)), c, w) =>
    let (x, notices) := c.decode d codec key bytes
    (x, c, w.tell notices)

/-- Reads values from their bytes; those that do not read are left out. -/
def decodeAll (c : Cache) (d : Diagnostics) (codec : Codec α) :
    List (String × ByteArray) → List (String × α) × List Notice
  | [] => ([], [])
  | (key, bytes) :: rest =>
    let (x, notices) := c.decode d codec key bytes
    let (xs, more) := c.decodeAll d codec rest
    (match x with
      | some x => (key, x) :: xs
      | none => xs, notices ++ more)

/-- Reads the values under several keys, in ascending order of the keys; those
that miss are left out. -/
def getMany (c : Cache) (w : World σ) (d : Diagnostics) (codec : Codec α) (keys : List String) :
    List (String × α) × Cache × World σ :=
  match c.onBackend w (·.getMany · keys) with
  | (.error _, c, w) => ([], c, w)
  | (.ok (.error e), c, w) =>
    ([], c, w.tell [{ Notice.warn ("Cache read failed, reporting misses: " ++ e.message) with
      fields := [("backend", c.backendName)] }])
  | (.ok (.ok found), c, w) =>
    let (xs, notices) := c.decodeAll d codec found.toList
    (xs, c, w.tell notices)

/-! ## Writes -/

/-- The outcome of a call of the backend that was or was not reached. -/
def flatten : Except CacheError (Except CacheError Unit) × Cache × World σ →
    Except CacheError Unit × Cache × World σ
  | (.error e, c, w) => (.error e, c, w)
  | (.ok r, c, w) => (r, c, w)

/-- Writes a value for some seconds, 0 for no end. A value that the codec
cannot write is reported and not stored. -/
def set (c : Cache) (w : World σ) (codec : Codec α) (key : String) (value : α) (ttl : UInt32) :
    Except CacheError Unit × Cache × World σ :=
  match codec.encode? value with
  | .ok bytes => flatten (c.onBackend w (·.set · key bytes ttl))
  | .error e =>
    match c.init w with
    | (.error e, c, w) => (.error e, c, w)
    | (.ok (), c, w) =>
      (.ok (), c,
        w.tell [{ Notice.error ("Could not serialize value, write dropped: " ++ e.message) with
        fields := [("key", key)] }])

/-- Writes a value for the time that an expression says. -/
def setFor (c : Cache) (w : World σ) (codec : Codec α) (key : String) (value : α)
    (expiration : String) : Except CacheError Unit × Cache × World σ :=
  match Duration.parse expiration with
  | .error e => (.error e, c, w)
  | .ok ttl => c.set w codec key value ttl

/-- Removes a key. -/
def delete (c : Cache) (w : World σ) (key : String) : Except CacheError Unit × Cache × World σ :=
  flatten (c.onBackend w (·.delete · key))

/-- Removes everything; before the first use there is nothing to remove. -/
def clear (c : Cache) (w : World σ) : Except CacheError Unit × Cache × World σ :=
  match c.state with
  | .uninitialized => (.ok (), c, w)
  | .stopped => (.error (.illegalState .cacheStopped), c, w)
  | .active b sweep =>
    let (r, b, w) := b.clear w
    (r, { c with state := .active b sweep }, w)

/-! ## Life -/

/-- Stops the cache for good, and its backend with it. The cache counts as stopped even
if the backend cannot be (`Backend.stop`). -/
def stop (c : Cache) (w : World σ) : Except CacheError Unit × Cache × World σ :=
  let stopped := { c with state := .stopped }
  match c.state with
  | .uninitialized | .stopped => (.ok (), stopped, w)
  | .active b _ =>
    match b.stop w with
    | (.ok (), _, w) => (.ok (), stopped, w)
    | (.error e, _, w) =>
      (.error e, stopped, w.tell [{ Notice.error ("Failed to stop the cache: " ++ e.message) with
        fields := [("backend", c.backendName)] }])

/-- The counters of the backend, while there is one in use. -/
def stats (c : Cache) : Option Stats :=
  match c.state with
  | .active b _ => some b.stats
  | _ => none

/-- Time passes; a sweep that is due then runs. -/
def advance (c : Cache) (w : World σ) (millis : Int) : Cache × World σ :=
  let w := w.advance millis
  match c.state with
  | .active b sweep =>
    let (sweep, b, w) := Sweep.tick? sweep b w
    ({ c with state := .active b sweep }, w)
  | _ => (c, w)

/-- Lets the workers of a remote backend run until no write is pending. -/
def quiesce (c : Cache) (w : World σ) : Cache × World σ :=
  match c.state with
  | .active (.remote cluster) sweep =>
    let live : Remote.Live σ := { cluster, network := w.network, notices := w.notices }
    let live := live.quiesce
    ({ c with state := .active (.remote live.cluster) sweep },
      { w with network := live.network, notices := live.notices })
  | _ => (c, w)

end Cache

end CacheService
