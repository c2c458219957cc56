import CacheService.Proofs.Cache.LocalStore
import CacheService.Proofs.Remote.Bounds
import CacheService.Proofs.Settings
import CacheService.Proofs.Store.Bounds
import CacheService.Remote.Server

/-!
# CacheService.Proofs.Cache.FailFast

Bad settings fail when they are read, and not on first use. Whatever properties are
accepted, the backend can be built (`Backend.ofConfig_of_accepted`); and no call of a
backend in use then goes down, after any run of the cache and in any surroundings
(`Cache.runs_of_accepted`): a key has a node, the queue of a node can be made, deadlines
can be told, and no byte count, tick or counter goes below zero or beyond a word of 64
bits.

* `Backend.Safe` — what a call relies on, `Remote.Cluster.Solid` for a remote client.
* `Backend.Within` — the bounds that a backend in use keeps to (`preserved_within`),
  from which `Within.safe` follows as long as neither operations nor bytes are too many.

There is one exception. The size of a queue is only kept from being zero, but a queue is
made when the first command is queued, and one beyond `Node.queueLimit` cannot be
(`Cache.hasCrashed_set`).
-/

namespace CacheService

open Remote (Cluster Network Node)

variable {config : BackendConfig} {settings : RemoteSettings}

/-- What is `Accepted` can be built. -/
theorem Backend.ofConfig_of_accepted (h : config.Accepted) :
    ∃ b, Backend.ofConfig config = .ok b := by
  cases config with
  | localTiers plan => exact ⟨_, rfl⟩
  | disabled => exact ⟨_, rfl⟩
  | remote settings =>
      have hnodes : settings.nodes.isEmpty = false := by simpa using h.nodes
      simp [ofConfig, Cluster.create, hnodes, Except.map]

/-! ## What a call relies on -/

/-- Sums of counters, and counts that are sums, fit into a word of 64 bits. -/
structure Stats.Fit (s : Stats) : Prop where
  reads : s.hits + s.misses < 2 ^ 64
  evictions : s.evictions < 2 ^ 64
  expirations : s.expirations < 2 ^ 64
  drops : s.droppedWrites < 2 ^ 64
  entries : s.totalEntries < 2 ^ 64
  heapBytes : s.heapBytes < 2 ^ 64
  offHeapBytes : s.offHeapBytes < 2 ^ 64

/-- What a remote client relies on. -/
structure Remote.Cluster.Solid (c : Cluster) : Prop where
  /-- A key has a node. -/
  inRange : ∀ key, c.nodeOf key < c.nodes.length
  /-- Queues can be made. -/
  queues : ∀ node ∈ c.nodes, 0 < node.capacity ∧ node.capacity ≤ Node.queueLimit
  /-- Deadlines can be told, and a stop waits for two limits. -/
  deadlines : ∀ node ∈ c.nodes, ∀ seconds < 2 ^ 62, seconds + node.timeout.secs.toNat + 1 < 2 ^ 63
  deadline : ∀ seconds < 2 ^ 62, seconds + c.timeout.secs.toNat + 1 < 2 ^ 63
  patience : 2 * c.timeout.secs.toNat + 1 < 2 ^ 64
  pending : c.pendingWrites < 2 ^ 64

namespace Backend

/-- The bytes that a backend holds in this process, each entry with its overhead. -/
def held : Backend → Nat
  | .localTiers (some s) => bytesOf s.rows
  | .localTiers none | .remote _ | .disabled => 0

/-- The bytes that a call brings along. -/
def Call.footprint : Call → Nat
  | .set key value _ => key.utf8ByteSize + value.size + Entry.overhead
  | .get _ | .getMany _ | .delete _ | .clear | .stop | .cleanup => 0

variable {σ : Type} [Network σ]

/-- A backend can take a call, and does not go down with it. A store takes the
operations that the call comes to one after the other. -/
structure Safe (b : Backend) (w : World σ) (call : Call) : Prop where
  stats : b.stats.Fit
  store : ∀ s, b = .localTiers (some s) → ∀ past c rest, call.onStore w.now = past ++ c :: rest →
    (s.after past).Backed c ∧ (s.after past).Fits c
  client : ∀ c, b = .remote c → c.Solid
  survives : (b.perform w call).2.1.hasCrashed = false

/-! ## Backends in use -/

/-- The backends of a configuration, after `n` operations at most. -/
inductive Within : BackendConfig → Nat → Backend → Prop
  | localTiers {plan : CapacityPlan} {n : Nat} {s : Store} (valid : s.Valid plan .entryTtl)
      (paced : s.Paced n 0 0) : Within (.localTiers plan) n (.localTiers (some s))
  | remote {settings : RemoteSettings} {n : Nat} {c : Cluster} (within : c.Within settings n 0) :
      Within (.remote settings) n (.remote c)
  | disabled {n : Nat} : Within .disabled n .disabled

variable {n : Nat} {b : Backend}

/-- A call weighs no less on a backend than on its client. -/
theorem Call.weight_remote {call : Call} {asked : Cluster.Call} (h : call.remote? = some asked) :
    asked.weight ≤ call.weight := by
  cases call with
  | cleanup => contradiction
  | _ =>
      obtain rfl := Option.some.inj h
      first | exact le_rfl | exact Nat.zero_le _

/-- `Within` for more operations. -/
theorem Within.mono {m : Nat} (h : Within config n b) (hle : n ≤ m) : Within config m b := by
  cases h with
  | localTiers valid paced => exact .localTiers valid (paced.mono hle)
  | remote within => exact .remote (within.mono hle)
  | disabled => exact .disabled

/-- A client stays `Cluster.Within` its settings, whatever it is asked. -/
theorem within_client {c : Cluster} (h : c.Within settings n 0) (w : World σ) (call : Call) :
    ∃ c', ((Backend.remote c).perform w call).2.1 = .remote c' ∧
      c'.Within settings (n + call.weight) 0 := by
  cases hasked : call.remote? with
  | none =>
      cases call with
      | cleanup => exact ⟨c, rfl, h.mono (Nat.le_add_right ..)⟩
      | _ => contradiction
  | some asked =>
      have hweight := Call.weight_remote hasked
      have hdone := Remote.Live.within_call (l := live c w) h w.unixSeconds asked
      exact ⟨_, by rw [perform_remote c w hasked], hdone.mono (by omega)⟩

/-- A call adds its weight. -/
theorem Within.call (h : Within config n b) (w : World σ) {call : Call} (hruns : call ≠ .stop) :
    Within config (n + call.weight) (b.perform w call).2.1 := by
  cases h with
  | localTiers valid paced =>
      have hcalls := Call.length_onStore_le call w.now
      rw [perform_localTiers _ w hruns]
      exact .localTiers (Store.valid_after valid _) ((paced.after valid _).mono (by omega))
  | remote within =>
      obtain ⟨c', hclient, hwithin⟩ := within_client within w call
      rw [hclient]
      exact .remote hwithin
  | disabled => cases call <;> exact .disabled

/-- A backend that has just been built has been asked nothing. -/
theorem within_ofConfig (h : Backend.ofConfig config = .ok b) : Within config 0 b := by
  cases config with
  | localTiers plan =>
      obtain rfl := Except.ok.inj h
      exact .localTiers (Store.valid_empty plan .entryTtl) (Store.paced_empty plan .entryTtl)
  | remote settings =>
      obtain ⟨c, hcreate, rfl⟩ := map_eq_ok.mp h
      exact .remote (Cluster.within_create hcreate)
  | disabled =>
      obtain rfl := Except.ok.inj h
      exact .disabled

/-- **A backend in use** stays `Within` its bounds. -/
theorem preserved_within (config : BackendConfig) : Preserved σ config (Within config) where
  built _ h := within_ofConfig h
  more _ _ _ hle h := h.mono hle
  call _ _ w _ hruns h := h.call w hruns
  sweep n b w h := by
    cases h with
    | localTiers valid paced =>
        exact .localTiers (Store.cleanup_spec valid w.now).2.1 (paced.cleanup valid w.now).2
    | remote within => exact .remote within
    | disabled => exact .disabled
  workers n c w h := by
    cases h with
    | remote within => exact .remote (Remote.Live.within_quiesce (l := live c w) within)

/-! ## What holds of them -/

/-- A backend whose queues can be made has not crashed. -/
theorem Within.survives (h : Within config n b)
    (hqueue : ∀ settings, config = .remote settings → settings.queueCapacity ≤ Node.queueLimit) :
    b.hasCrashed = false := by
  cases h with
  | remote within => exact within.survives (hqueue _ rfl)
  | _ => rfl

/-- The operations of a store bring along what the call does. -/
theorem Call.sum_footprint_onStore (call : Call) (now : UInt64) :
    ((call.onStore now).map Store.Call.footprint).sum = call.footprint := by
  cases call with
  | getMany keys => simp [onStore, footprint, Function.comp_def, Store.Call.footprint]
  | _ => rfl

/-- **A store in use** is `Safe` for a call, if neither the operations nor the bytes
that are held with it are too many. -/
theorem safe_store {plan : CapacityPlan} {s : Store} (hv : s.Valid plan .entryTtl)
    (h : s.Paced n 0 0) (w : World σ) (call : Call) (hn : n + call.weight < 2 ^ 64)
    (hbytes : bytesOf s.rows + call.footprint < 2 ^ 64) :
    (Backend.localTiers (some s)).Safe w call where
  stats := by
    have hsize := hv.size_eq
    have hheld := Store.bytesOf_rows hv
    obtain ⟨-, -, hreads, hlost⟩ := h
    constructor <;> simp only [stats, Store.stats, Stats.zero] <;> omega
  store := by
    rintro s' ⟨⟩ past c rest hcalls
    have hlength := Call.length_onStore_le call w.now
    have hsum := call.sum_footprint_onStore w.now
    have hpast := Store.bytesOf_after_le hv past
    have hv' := Store.valid_after hv past
    have hpaced := h.after hv past
    rw [hcalls] at hlength hsum
    simp only [List.length_append, List.length_cons, List.map_append, List.map_cons,
      List.sum_append, List.sum_cons] at hlength hsum
    exact ⟨hv'.backed c, (hpaced.perform hv' c).1 (by omega) (by omega)⟩
  client := nofun
  survives := by cases call <;> rfl

/-- **A client in use** is `Safe` for a call, if its queues can be made. -/
theorem safe_client {c : Cluster} (h : c.Within settings n 0) (haccepted : settings.Accepted)
    (hqueue : settings.queueCapacity ≤ Node.queueLimit) (w : World σ) (call : Call)
    (hn : n + call.weight < 2 ^ 64) : (Backend.remote c).Safe w call where
  stats := by
    have hunstored := c.unstored_eq
    obtain ⟨-, -, -, hlookups, hwrites⟩ := h
    constructor <;> simp only [stats, Cluster.stats, Stats.zero] at hunstored ⊢ <;> omega
  store := nofun
  client := by
    rintro c' ⟨⟩
    have htimeout := haccepted.timeout
    have hmax : Duration.maxSeconds < 2 ^ 32 := by decide
    have hone : 1 ≤ Node.queueLimit := by decide
    have hunstored := c.unstored_eq
    have hwrites := h.writes
    constructor
    · exact fun key => Remote.nodeIndex_lt _ (List.length_pos_iff.mpr h.booked.nonempty)
    · intro node hnode
      rw [(h.nodes node hnode).capacity]
      omega
    · intro node hnode seconds hseconds
      rw [(h.nodes node hnode).timeout]
      omega
    · intro seconds hseconds
      rw [h.timeout]
      omega
    · rw [h.timeout]
      omega
    · omega
  survives := by
    obtain ⟨c', hclient, hwithin⟩ := within_client h w call
    rw [hclient]
    exact hwithin.survives hqueue

/-- **A backend in use** is `Safe` for a call, by either of these. -/
theorem Within.safe (h : Within config n b) (haccepted : config.Accepted)
    (hqueue : ∀ settings, config = .remote settings → settings.queueCapacity ≤ Node.queueLimit)
    (w : World σ) (call : Call) (hn : n + call.weight < 2 ^ 64)
    (hbytes : b.held + call.footprint < 2 ^ 64) :
    b.Safe w call := by
  cases h with
  | localTiers valid paced => exact safe_store valid paced w call hn hbytes
  | remote within => exact safe_client within haccepted (hqueue _ rfl) w call hn
  | disabled =>
      have hsurvives : (Backend.disabled.perform w call).2.1.hasCrashed = false := by
        cases call <;> rfl
      exact ⟨by constructor <;> decide, nofun, nofun, hsurvives⟩

end Backend

namespace Cache

variable {σ : Type} [Network σ]

/-- The backend that a call would be passed on to, which is built if it is not there. -/
theorem within_activate (config : BackendConfig) (interval : Span) (hasTimer : Bool)
    (steps : List (Step σ)) (w : World σ) {b : Backend} {sweep : Option Sweep}
    (h : ((Cache.after { config, cleanupInterval := interval, hasTimer } steps).activate w).1 =
      .ok (b, sweep)) : Backend.Within config (steps.map Step.weight).sum b := by
  have hinUse := inUse_after (Backend.preserved_within config) interval hasTimer steps
  generalize Cache.after _ steps = c at h hinUse
  unfold activate at h
  split at h
  · next b' sweep' hstate =>
      obtain ⟨rfl, rfl⟩ := Prod.mk.inj (Except.ok.inj h)
      exact hinUse.holds _ _ hstate
  · contradiction
  · rw [hinUse.sound.config] at h
    split at h
    · contradiction
    · next b' hb =>
        obtain ⟨rfl, -⟩ := Prod.mk.inj (Except.ok.inj h)
        exact (Backend.within_ofConfig hb).mono (Nat.zero_le _)

/-- **Bad settings fail when they are read.** Whatever properties are accepted, a cache
on them is initialized without an error, and it does not go down, whatever is done with
it and in whatever surroundings; nor does any call that its backend is asked, as long
as fewer than `2 ^ 64` operations are run, a read of several keys counting as one for
each, and fewer than `2 ^ 64` bytes are held at a time, with what the call brings along.
The queues have to be ones that can be made. -/
theorem runs_of_accepted (σ : Type) [Network σ] {p : Properties} {config : BackendConfig}
    (haccepted : BackendConfig.ofProperties p = .ok config)
    (hqueue : ∀ settings, config = .remote settings → settings.queueCapacity ≤ Node.queueLimit)
    (interval : Span) (hasTimer : Bool) :
    let c : Cache := { config, cleanupInterval := interval, hasTimer }
    (∀ w : World σ, (c.init w).1 = .ok ()) ∧
      ∀ steps : List (Step σ), (c.after steps).hasCrashed = false ∧
        ∀ (w : World σ) b sweep (call : Backend.Call),
          ((c.after steps).activate w).1 = .ok (b, sweep) →
          (steps.map Step.weight).sum + call.weight < 2 ^ 64 → b.held + call.footprint < 2 ^ 64 →
          b.Safe w call := by
  intro c
  have hconfig := BackendConfig.accepted_of_ofProperties haccepted
  refine ⟨fun w => ?_, fun steps => ⟨?_, fun w b sweep call hb hn hbytes => ?_⟩⟩
  · obtain ⟨b, hb⟩ := Backend.ofConfig_of_accepted hconfig
    rw [init_built rfl hb, init_active rfl]
  · have hinUse := inUse_after (Backend.preserved_within config) interval hasTimer steps
    unfold hasCrashed
    split
    · next b sweep hstate => exact (hinUse.holds b sweep hstate).survives hqueue
    · rfl
    · rfl
  · exact (within_activate config interval hasTimer steps w hb).safe hconfig hqueue w call hn hbytes

/-- A remote cache with room for eight commands: while a write is queued, a read of two
keys is safe. -/
theorem runs_of_accepted_remote :
    let p := Properties.ofList [("cache.remote.host", "a:1"), ("cache.remote.queueSize", "8")]
    let settings : RemoteSettings := ⟨[⟨"a", 1⟩], .ofSeconds 1, 8, none, none⟩
    let w : World Remote.ServerFarm := { clock := 0, network := { servers := [] } }
    let optional : Codec Datum := .binary (.option (.natural 1))
    let steps : List (Step Remote.ServerFarm) := [.op w (.set optional "k" .none 0)]
    let c := Cache.after { config := .remote settings } steps
    BackendConfig.ofProperties p = .ok (.remote settings) ∧
      settings.queueCapacity ≤ Node.queueLimit ∧ c.hasCrashed = false ∧
      ∃ b sweep, (c.activate w).1 = .ok (b, sweep) ∧ b.Safe w (.getMany ["k", "l"]) := by
  intro p settings w optional steps c
  have haccepted : BackendConfig.ofProperties p = .ok (.remote settings) := by
    simp only [p, settings]
    cbv
  have hqueue : settings.queueCapacity ≤ Node.queueLimit := by decide
  have hruns := (runs_of_accepted Remote.ServerFarm haccepted (by rintro _ ⟨⟩; exact hqueue)
    (.ofSeconds 1) true).2 steps
  obtain ⟨b, sweep, hb, hheld⟩ : ∃ b sweep, (c.activate w).1 = .ok (b, sweep) ∧ b.held = 0 := by
    simp only [c, steps, w, settings, optional]
    exact ⟨_, _, rfl, rfl⟩
  refine ⟨haccepted, hqueue, hruns.1, b, sweep, hb, hruns.2 w b sweep _ hb (by decide) ?_⟩
  rw [hheld]
  decide

/-- **A longer queue** is accepted as well, and the cache is initialized. The first value
that is written brings it down, whatever the network would have made of it. -/
theorem hasCrashed_set {α σ : Type} [Network σ] {p : Properties} {settings : RemoteSettings}
    (haccepted : BackendConfig.ofProperties p = .ok (.remote settings))
    (hlong : Node.queueLimit < settings.queueCapacity) (w : World σ) {codec : Codec α}
    {key : String}
    {value : α} {bytes : ByteArray} (hkey : Remote.keyFault? key = none)
    (hbytes : codec.encode value = some bytes) (ttl : UInt32) :
    ((create (.remote settings)).set w codec key value ttl).2.1.hasCrashed = true := by
  obtain ⟨b, hb⟩ := Backend.ofConfig_of_accepted (BackendConfig.accepted_of_ofProperties haccepted)
  obtain ⟨c, hcreate, rfl⟩ := map_eq_ok.mp hb
  obtain ⟨c', hstart, hcrashed⟩ :=
    Cluster.hasCrashed_start_set hcreate hlong hkey w.unixSeconds bytes ttl
  have hfresh : c.forgetAnswers = c := by rw [Cluster.eq_of_create hcreate]; rfl
  have hset : ((Backend.remote c).set w key bytes ttl).2.1 = .remote c' := by
    simp only [Backend.set, Backend.onCluster, Remote.Live.call, hfresh, hstart]
    rfl
  have hencoded : codec.encode? value = .ok bytes := by simp [Codec.encode?, hbytes]
  have hquiet : w.tell (buildNotices (.remote settings)) = w := tell_nil w
  have hbuilt : ((create (.remote settings)).built (.remote c) w).state =
      .active (.remote c) none := rfl
  rw [set_built rfl hb, create, hquiet, ← create]
  simp only [set, hencoded, onBackend_active hbuilt, flatten, hasCrashed, hset]
  exact hcrashed

/-- So it is with the longest queue that can be asked for. -/
theorem hasCrashed_longest :
    let p := Properties.ofList
      [("cache.remote.host", "a:1"), ("cache.remote.queueSize", "18446744073709551615")]
    let settings : RemoteSettings := ⟨[⟨"a", 1⟩], .ofSeconds 1, 18446744073709551615, none, none⟩
    let w : World Remote.ServerFarm := { clock := 0, network := { servers := [] } }
    let optional : Codec Datum := .binary (.option (.natural 1))
    BackendConfig.ofProperties p = .ok (.remote settings) ∧
      ((create (.remote settings)).init w).1 = .ok () ∧
      (Cache.after (create (.remote settings)) [.op w (.set optional "k" .none 0)]).hasCrashed =
        true := by
  intro p settings w optional
  simp only [p, settings, w, optional]
  exact ⟨by cbv, rfl, by cbv⟩

end Cache

end CacheService
