import CacheService.Remote.Schedule
import CacheService.World

/-!
# CacheService.Backend

The storage behind a cache: the two-tier store of this process (`Store`), remote nodes
(`Remote.Cluster`), or nothing at all. Each call gives the answer, the backend after it
and the surroundings after it.

A stop takes the store of a local backend away, so every later call of that one is
refused (`onStore`). The remote client refuses calls by itself, and the backend that
stores nothing takes them all. A clean-up of the remote backend has nothing to do.
-/

namespace CacheService

open Remote (Found Network)

/-- A backend; the store of a stopped local one is gone. -/
inductive Backend
  | localTiers (store : Option Store)
  | remote (cluster : Remote.Cluster)
  /-- Stores nothing and takes every call. -/
  | disabled

namespace Backend

/-- The short name. -/
def name : Backend → String
  | .localTiers _ => "local"
  | .remote _ => "remote"
  | .disabled => "none"

/-- The backend of a configuration. -/
def ofConfig : BackendConfig → Except CacheError Backend
  | .localTiers plan => .ok (.localTiers (some (.empty plan .entryTtl)))
  | .remote settings => (Remote.Cluster.create settings).map .remote
  | .disabled => .ok .disabled

/-- Whether the process has gone down with the backend. -/
def hasCrashed : Backend → Bool
  | .remote c => c.hasCrashed
  | .localTiers _ | .disabled => false

/-- Runs an operation on the store of a local backend, if it is still there. -/
def onStore {α : Type} (store : Option Store) (f : Store → α × Store) :
    Except CacheError α × Backend :=
  match store with
  | none => (.error (.illegalState .localStopped), .localTiers none)
  | some s =>
    let (x, s) := f s
    (.ok x, .localTiers (some s))

section Calls

variable {σ : Type} [Network σ]

/-- Runs a call of the remote client. -/
def onCluster (c : Remote.Cluster) (w : World σ) (call : Remote.Cluster.Call) :
    Remote.Cluster.Result × Backend × World σ :=
  let live : Remote.Live σ := { cluster := c, network := w.network, notices := w.notices }
  let (r, live) := live.call w.unixSeconds call
  (r, .remote live.cluster, { w with network := live.network, notices := live.notices })

/-- The outcome of a remote call that returns nothing. -/
def unitOf : Remote.Cluster.Result → Except CacheError Unit
  | .error e => .error e
  | _ => .ok ()

def valueOf : Remote.Cluster.Result → Except CacheError (Option ByteArray)
  | .error e => .error e
  | .value v => .ok v
  | _ => .ok none

def foundOf : Remote.Cluster.Result → Except CacheError Found
  | .error e => .error e
  | .found f => .ok f
  | _ => .ok {}

/-- A result of a local call with the surroundings as they were. -/
def here {α : Type} (w : World σ) :
    Except CacheError α × Backend → Except CacheError α × Backend × World σ
  | (r, b) => (r, b, w)

/-- Reads a value. -/
def get (b : Backend) (w : World σ) (key : String) :
    Except CacheError (Option ByteArray) × Backend × World σ :=
  match b with
  | .localTiers store => here w (onStore store (·.get w.now key))
  | .remote c =>
    let (r, b, w) := onCluster c w (.get key)
    (valueOf r, b, w)
  | .disabled => (.ok none, .disabled, w)

/-- Reads several values; keys that are not found are left out. -/
def getMany (b : Backend) (w : World σ) (keys : List String) :
    Except CacheError Found × Backend × World σ :=
  match b with
  | .localTiers store =>
    here w (onStore store fun s =>
      let (pairs, s) := s.getMany w.now keys
      (pairs.foldl (fun found kv => found.insert kv.1 kv.2) {}, s))
  | .remote c =>
    let (r, b, w) := onCluster c w (.getMany keys)
    (foundOf r, b, w)
  | .disabled => (.ok {}, .disabled, w)

/-- Writes a value for some seconds, 0 for no end. -/
def set (b : Backend) (w : World σ) (key : String) (value : ByteArray) (ttl : UInt32) :
    Except CacheError Unit × Backend × World σ :=
  match b with
  | .localTiers store => here w (onStore store fun s => ((), s.set w.now key value ttl))
  | .remote c =>
    let (r, b, w) := onCluster c w (.set key value ttl)
    (unitOf r, b, w)
  | .disabled => (.ok (), .disabled, w)

/-- Removes a key; one that is not there is no error. -/
def delete (b : Backend) (w : World σ) (key : String) :
    Except CacheError Unit × Backend × World σ :=
  match b with
  | .localTiers store => here w (onStore store fun s => ((), (s.delete key).2))
  | .remote c =>
    let (r, b, w) := onCluster c w (.delete key)
    (unitOf r, b, w)
  | .disabled => (.ok (), .disabled, w)

/-- Removes everything. -/
def clear (b : Backend) (w : World σ) : Except CacheError Unit × Backend × World σ :=
  match b with
  | .localTiers store => here w (onStore store fun s => ((), s.clear))
  | .remote c =>
    let (r, b, w) := onCluster c w .clear
    (unitOf r, b, w)
  | .disabled => (.ok (), .disabled, w)

/-- Lets go of what the backend holds. -/
def stop (b : Backend) (w : World σ) : Except CacheError Unit × Backend × World σ :=
  match b with
  | .localTiers none => (.error (.illegalState .localStopped), .localTiers none, w)
  | .localTiers (some _) => (.ok (), .localTiers none, w)
  | .remote c =>
    let (r, b, w) := onCluster c w .stop
    (unitOf r, b, w)
  | .disabled => (.ok (), .disabled, w)

/-- Removes what has expired and counts it. Servers do that on their own. -/
def cleanup (b : Backend) (w : World σ) : Except CacheError Nat × Backend × World σ :=
  match b with
  | .localTiers store => here w (onStore store (·.cleanup w.now))
  | .remote c => (.ok 0, .remote c, w)
  | .disabled => (.ok 0, .disabled, w)

/-- The counters. -/
def stats : Backend → Stats
  | .localTiers (some s) => s.stats
  | .localTiers none => .zero "local"
  | .remote c => c.stats
  | .disabled => .zero "none"

end Calls

end Backend

end CacheService
