import CacheService.Proofs.Cache.TypedValues
import CacheService.Proofs.Store.Batch

/-!
# CacheService.Proofs.Cache.Batch

A cache reads several keys as it reads them one by one, if it keeps its values in this
process or keeps none. The batch decodes after the last read and the loop after each, so
the answers agree because a key has one value for as long as a batch lasts
(`Store.found_decoded`). What the loop leaves of the cache is what the batch leaves
(`getMany_eq_getEach`), except that a batch without keys still has the backend built.
-/

namespace CacheService

open Std
open Remote (Found Network)

/-! ## Reading one by one -/

namespace Cache

section Loop

variable {σ : Type} [Network σ] {α : Type}

/-- Reads the keys one after the other (`Cache.get`), and adds those that do not miss to
what has been found. -/
def getEach (d : Diagnostics) (codec : Codec α) :
    List String → TreeMap String α → Cache → World σ → TreeMap String α × Cache × World σ
  | [], found, c, w => (found, c, w)
  | key :: keys, found, c, w =>
    let (x, c, w) := c.get w d codec key
    getEach d codec keys (x.elim found (found.insert key)) c w

end Loop

/-- A cache that keeps its values in this process, or keeps none. Its backend, while it is
in use, is disabled, or has been stopped, or has a store. -/
structure InProcess (c : Cache) : Prop where
  config : c.config = .disabled ∨ ∃ plan, c.config = .localTiers plan
  backend : ∀ b sweep, c.state = .active b sweep →
    b = .disabled ∨ b = .localTiers none ∨ ∃ plan, b.HasStore plan

end Cache

/-! ## Decoding at the end or at once -/

/-- Values that are decoded at once, under keys that have one value each, are those of the
table of bytes that can be decoded. -/
theorem getElem?_foldl_decoded {α : Type} (decode : ByteArray → Option α)
    (value? : String → Option ByteArray) {pairs : List (String × ByteArray)} {found : Found}
    {decoded : TreeMap String α} (hpairs : ∀ kv ∈ pairs, value? kv.1 = some kv.2)
    (hfound : ∀ (key : String) (bytes : ByteArray), found[key]? = some bytes →
      value? key = some bytes)
    (h : ∀ key : String, decoded[key]? = found[key]?.bind decode) (key : String) :
    (pairs.foldl (fun decoded kv =>
      (decode kv.2).elim decoded (decoded.insert kv.1)) decoded)[key]? =
      (pairs.foldl (fun found kv => found.insert kv.1 kv.2) found)[key]?.bind decode := by
  induction pairs generalizing found decoded with
  | nil => exact h key
  | cons kv pairs ih =>
      obtain ⟨hkv, hpairs⟩ := List.forall_mem_cons.mp hpairs
      rw [List.foldl_cons, List.foldl_cons]
      apply ih hpairs
      · intro key' bytes hbytes
        rw [TreeMap.getElem?_insert] at hbytes
        split at hbytes
        · next hkey => rw [← LawfulEqCmp.eq_of_compare hkey, hkv, hbytes]
        · exact hfound key' bytes hbytes
      · intro key'
        rw [TreeMap.getElem?_insert]
        cases hx : decode kv.2 with
        | some x =>
            rw [Option.elim_some, TreeMap.getElem?_insert]
            split
            · exact hx.symm
            · exact h key'
        | none =>
            rw [Option.elim_none, h key']
            split
            · next hkey =>
                -- what was found under the key before are the same bytes
                obtain rfl := LawfulEqCmp.eq_of_compare hkey
                cases hold : found[kv.1]? with
                | none => exact hx.symm
                | some bytes =>
                    obtain rfl := Option.some.inj ((hfound _ _ hold).symm.trans hkv)
                    rfl
            · rfl

/-- The list of a table of decoded values is that of the bytes, decoded one by one. -/
theorem toList_decoded {α : Type} (decode : ByteArray → Option α) {found : Found}
    {decoded : TreeMap String α} (h : ∀ key : String, decoded[key]? = found[key]?.bind decode) :
    decoded.toList = found.toList.filterMap fun kv => (decode kv.2).map (kv.1, ·) := by
  apply toList_eq_of_mem_iff
  · refine List.Pairwise.filterMap _ ?_ TreeMap.ordered_keys_toList
    intro kv kv' hlt x hx x' hx'
    obtain ⟨y, -, rfl⟩ := Option.map_eq_some_iff.mp hx
    obtain ⟨y', -, rfl⟩ := Option.map_eq_some_iff.mp hx'
    exact hlt
  · intro key x
    rw [h key, Option.bind_eq_some_iff, List.mem_filterMap]
    constructor
    · rintro ⟨⟨key', bytes⟩, hmem, hx⟩
      obtain ⟨y, hy, heq⟩ := Option.map_eq_some_iff.mp hx
      obtain ⟨rfl, rfl⟩ := Prod.mk.inj heq
      exact ⟨bytes, TreeMap.mem_toList_iff_getElem?_eq_some.mp hmem, hy⟩
    · rintro ⟨bytes, hbytes, hx⟩
      exact ⟨(key, bytes), TreeMap.mem_toList_iff_getElem?_eq_some.mpr hbytes, by simp [hx]⟩

/-- **One value for each key** throughout a batch, so that it does not matter when the
values are decoded. -/
theorem Store.found_decoded {plan : CapacityPlan} {s : Store} (hv : s.Valid plan .entryTtl)
    {α : Type} (decode : ByteArray → Option α) (now : UInt64) (keys : List String) :
    let pairs := (s.getMany now keys).1
    (pairs.foldl (fun decoded kv => (decode kv.2).elim decoded (decoded.insert kv.1))
        ({} : TreeMap String α)).toList =
      (pairs.foldl (fun found kv => found.insert kv.1 kv.2) ({} : Found)).toList.filterMap
        fun kv => (decode kv.2).map (kv.1, ·) := by
  intro pairs
  have hvalue : ∀ kv ∈ pairs, (s.live? now kv.1).map (·.value) = some kv.2 := by
    intro kv hkv
    obtain ⟨-, -, e, -, hlive, hvalue, -⟩ := (mem_getMany_of_start hv now keys kv).mp hkv
    rw [hlive, Option.map_some, hvalue]
  exact toList_decoded decode
    (getElem?_foldl_decoded decode (fun key => (s.live? now key).map (·.value)) hvalue
      (by simp) (by simp))

namespace Cache

variable {σ : Type} [Network σ] {α : Type} {c : Cache} {w : World σ} {d : Diagnostics}
  {codec : Codec α} {s : Store} {b : Backend} {sweep : Option Sweep}

/-! ## A cache with a store -/

omit [Network σ] in

/-- Telling the operator takes no time. -/
theorem now_tell (w : World σ) (notices : List Notice) : (w.tell notices).now = w.now := rfl

omit [Network σ] in

/-- Notices are told one after the other. -/
theorem tell_tell (w : World σ) (notices more : List Notice) :
    (w.tell notices).tell more = w.tell (notices ++ more) := by
  rw [World.tell, World.tell, World.tell, List.append_assoc]

/-- `decodeAll` keeps the values that the codec decodes. -/
theorem decodeAll_eq (c : Cache) (d : Diagnostics) (codec : Codec α)
    (pairs : List (String × ByteArray)) :
    (c.decodeAll d codec pairs).1 = pairs.filterMap fun kv =>
      (codec.decode kv.2).map (kv.1, ·) := by
  induction pairs with
  | nil => rfl
  | cons kv pairs ih =>
      simp only [decodeAll, decode, Codec.decode?, ih, List.filterMap_cons]
      cases codec.decode kv.2 <;> rfl

/-- **The batch** leaves the store as `Store.getMany` does. -/
theorem getMany_withStore (hstate : c.state = .active (.localTiers (some s)) sweep) (w : World σ)
    (d : Diagnostics) (codec : Codec α) (keys : List String) :
    ∃ notices, c.getMany w d codec keys =
      (((s.getMany w.now keys).1.foldl (fun found kv => found.insert kv.1 kv.2)
          ({} : Found)).toList.filterMap fun kv => (codec.decode kv.2).map (kv.1, ·),
        c.withStore (s.getMany w.now keys).2 sweep, w.tell notices) := by
  have hread : (Backend.localTiers (some s)).getMany w keys =
      (.ok ((s.getMany w.now keys).1.foldl (fun found kv => found.insert kv.1 kv.2) {}),
        .localTiers (some (s.getMany w.now keys).2), w) := rfl
  simp only [getMany, onBackend_active hstate, hread]
  refine ⟨_, Prod.ext ?_ rfl⟩
  exact decodeAll_eq ..

/-- **The loop** leaves the store as `Store.getMany` does, and decodes each value when
it is read. -/
theorem getEach_withStore (hstate : c.state = .active (.localTiers (some s)) sweep) (w : World σ)
    (d : Diagnostics) (codec : Codec α) (keys : List String) (found : TreeMap String α) :
    ∃ notices, getEach d codec keys found c w =
      ((s.getMany w.now keys).1.foldl
          (fun found kv => (codec.decode kv.2).elim found (found.insert kv.1)) found,
        c.withStore (s.getMany w.now keys).2 sweep, w.tell notices) := by
  induction keys generalizing c s w found with
  | nil =>
      refine ⟨[], ?_⟩
      rw [getEach, tell_nil, withStore, Store.getMany, ← hstate]
      rfl
  | cons key keys ih =>
      obtain ⟨told, hread⟩ := get_decoded hstate w d codec key
      obtain ⟨more, hrest⟩ := ih (c.state_withStore (s.get w.now key).2 sweep) (w.tell told)
        (((s.get w.now key).1.bind codec.decode).elim found (found.insert key))
      refine ⟨told ++ more, ?_⟩
      rw [getEach, hread]
      dsimp only
      rw [hrest, now_tell, Store.getMany_cons, tell_tell]
      cases (s.get w.now key).1 <;> rfl

/-! ## A cache that finds nothing -/

/-- Reads of this cache miss, and leave it as it is. -/
structure Misses (σ : Type) [Network σ] (c : Cache) : Prop where
  get : ∀ {α : Type} (w : World σ) (d : Diagnostics) (codec : Codec α) (key : String),
    ∃ notices, c.get w d codec key = (none, c, w.tell notices)
  getMany : ∀ {α : Type} (w : World σ) (d : Diagnostics) (codec : Codec α) (keys : List String),
    ∃ notices, c.getMany w d codec keys = ([], c, w.tell notices)

/-- A stopped cache misses. -/
theorem misses_stopped (hstate : c.state = .stopped) : c.Misses σ where
  get w d codec key := by
    simp only [Cache.get, onBackend_refused (activate_stopped hstate w)]
    exact ⟨[], by rw [tell_nil]; rfl⟩
  getMany w d codec keys := by
    simp only [Cache.getMany, onBackend_refused (activate_stopped hstate w)]
    exact ⟨[], by rw [tell_nil]⟩

/-- So does a disabled one. -/
theorem misses_disabled (hstate : c.state = .active .disabled sweep) : c.Misses σ where
  get w d codec key := by
    simp only [Cache.get, onBackend_active hstate, Backend.get, ← hstate]
    exact ⟨[], by rw [tell_nil]⟩
  getMany w d codec keys := by
    simp only [Cache.getMany, onBackend_active hstate, Backend.getMany, ← hstate]
    exact ⟨[], rfl⟩

/-- So does one whose store has been stopped. -/
theorem misses_stoppedStore (hstate : c.state = .active (.localTiers none) sweep) : c.Misses σ where
  get w d codec key := by
    simp only [Cache.get, onBackend_active hstate, Backend.get, Backend.here,
      Backend.onStore, ← hstate]
    exact ⟨_, rfl⟩
  getMany w d codec keys := by
    simp only [Cache.getMany, onBackend_active hstate, Backend.getMany, Backend.here,
      Backend.onStore,
      ← hstate]
    exact ⟨_, rfl⟩

/-- A loop on a cache that `Misses` finds nothing. -/
theorem Misses.getEach (h : c.Misses σ) (w : World σ) (d : Diagnostics) (codec : Codec α)
    (keys : List String) (found : TreeMap String α) :
    ∃ notices, Cache.getEach d codec keys found c w = (found, c, w.tell notices) := by
  induction keys generalizing w with
  | nil => exact ⟨[], by rw [Cache.getEach, tell_nil]⟩
  | cons key keys ih =>
      obtain ⟨told, hread⟩ := h.get w d codec key
      obtain ⟨more, hrest⟩ := ih (w.tell told)
      refine ⟨told ++ more, ?_⟩
      rw [Cache.getEach, hread]
      exact hrest.trans (by rw [tell_tell])

/-! ## Caches in this process -/

omit [Network σ] in

/-- A cache that is `InUse` with a backend of this process is `InProcess`. -/
theorem inProcess_of_inUse {P : Nat → Backend → Prop} {config : BackendConfig} {n : Nat}
    (h : c.InUse config P n) (hconfig : config = .disabled ∨ ∃ plan, config = .localTiers plan)
    (hP : ∀ n b, P n b → b = .disabled ∨ ∃ plan, b.HasStore plan) : c.InProcess where
  config := h.sound.config ▸ hconfig
  backend b sweep hb := (hP n b (h.holds b sweep hb)).imp_right .inr

/-- A disabled backend stays one. -/
theorem preserved_disabled :
    Backend.Preserved σ .disabled fun _ b => b = .disabled where
  built b hb := (Except.ok.inj hb).symm
  more _ _ _ _ h := h
  call n b w call hruns h := by
    subst h
    cases call <;> rfl
  sweep n b w h := by
    subst h
    rfl
  workers n c w h := nomatch h

/-- **Every cache of such a configuration** is `InProcess` after any run. -/
theorem inProcess_after {config : BackendConfig}
    (hconfig : config = .disabled ∨ ∃ plan, config = .localTiers plan) (interval : Span)
    (hasTimer : Bool) (steps : List (Step σ)) :
    (Cache.after { config, cleanupInterval := interval, hasTimer } steps).InProcess := by
  obtain rfl | ⟨plan, rfl⟩ := id hconfig
  · exact inProcess_of_inUse (inUse_after preserved_disabled interval hasTimer steps) hconfig
      fun _ _ h => .inl h
  · exact inProcess_of_inUse (inUse_after (Backend.preserved_hasStore plan) interval hasTimer steps)
      hconfig fun _ _ h => .inr ⟨plan, h⟩

/-! ## Before the first use -/

/-- A batch on a cache that has not been used has its backend built. -/
theorem getMany_built (hstate : c.state = .uninitialized) (hb : Backend.ofConfig c.config = .ok b)
    (w : World σ) (d : Diagnostics) (codec : Codec α) (keys : List String) :
    c.getMany w d codec keys =
      (c.built b w).getMany (w.tell (buildNotices c.config)) d codec keys := by
  simp only [getMany, onBackend_built hstate hb]

/-- The first read of a loop has the backend built. -/
theorem getEach_built (hstate : c.state = .uninitialized) (hb : Backend.ofConfig c.config = .ok b)
    (w : World σ) (d : Diagnostics) (codec : Codec α) (key : String) (keys : List String)
    (found : TreeMap String α) :
    getEach d codec (key :: keys) found c w =
      getEach d codec (key :: keys) found (c.built b w) (w.tell (buildNotices c.config)) := by
  simp only [getEach, get, onBackend_built hstate hb]

/-- The backend of a cache that is `InProcess` can be built. -/
theorem InProcess.ofConfig (h : c.InProcess) :
    ∃ b, Backend.ofConfig c.config = .ok b ∧ (b = .disabled ∨ ∃ plan, b.HasStore plan) := by
  rcases h.config with hconfig | ⟨plan, hconfig⟩
  · exact ⟨.disabled, by rw [hconfig]; rfl, .inl rfl⟩
  · exact ⟨_, by rw [hconfig]; rfl, .inr ⟨plan, [], rfl⟩⟩

omit [Network σ] in
/-- Building the backend keeps a cache in this process. -/
theorem InProcess.built (h : c.InProcess) (hb : Backend.ofConfig c.config = .ok b) (w : World σ) :
    (c.built b w).InProcess where
  config := h.config
  backend b' sweep' hb' := by
    obtain ⟨rfl, -⟩ := State.active.inj hb'
    obtain ⟨b, hb₀, hkind⟩ := h.ofConfig
    obtain rfl := Except.ok.inj (hb₀.symm.trans hb)
    exact hkind.imp_right .inr

/-! ## Any cache -/

/-- A batch answers as the loop does, and leaves the cache that the loop leaves. Neither
does anything to the surroundings but tell the operator. -/
structure ReadsAlike (many : List (String × α) × Cache × World σ)
    (each : TreeMap String α × Cache × World σ) (w : World σ) : Prop where
  answer : many.1 = each.1.toList
  cache : many.2.1 = each.2.1
  many : ∃ notices, many.2.2 = w.tell notices
  each : ∃ notices, each.2.2 = w.tell notices

omit [Network σ] in

/-- Notices that are told before make no difference to `ReadsAlike`. -/
theorem ReadsAlike.told {many : List (String × α) × Cache × World σ}
    {each : TreeMap String α × Cache × World σ} {notices : List Notice}
    (h : ReadsAlike many each (w.tell notices)) : ReadsAlike many each w := by
  obtain ⟨more, hmany⟩ := h.many
  obtain ⟨more', heach⟩ := h.each
  exact ⟨h.answer, h.cache, ⟨_, hmany.trans (tell_tell ..)⟩, ⟨_, heach.trans (tell_tell ..)⟩⟩

/-- `ReadsAlike` on a cache that `Misses`. -/
theorem Misses.readsAlike (h : c.Misses σ) (w : World σ) (d : Diagnostics) (codec : Codec α)
    (keys : List String) :
    ReadsAlike (c.getMany w d codec keys) (Cache.getEach d codec keys {} c w) w := by
  obtain ⟨notices, hmany⟩ := h.getMany w d codec keys
  obtain ⟨notices', heach⟩ := h.getEach w d codec keys {}
  rw [hmany, heach]
  exact ⟨rfl, rfl, ⟨_, rfl⟩, ⟨_, rfl⟩⟩

/-- `ReadsAlike` on a cache with a store. -/
theorem readsAlike_withStore {plan : CapacityPlan} (hb : b.HasStore plan)
    (hstate : c.state = .active b sweep) (w : World σ) (d : Diagnostics) (codec : Codec α)
    (keys : List String) :
    ReadsAlike (c.getMany w d codec keys) (getEach d codec keys {} c w) w := by
  obtain ⟨calls, rfl⟩ := hb
  have hv := Store.valid_after (Store.valid_empty plan .entryTtl) calls
  obtain ⟨notices, hmany⟩ := getMany_withStore hstate w d codec keys
  obtain ⟨notices', heach⟩ := getEach_withStore hstate w d codec keys {}
  rw [hmany, heach]
  exact ⟨(Store.found_decoded hv codec.decode w.now keys).symm, rfl, ⟨_, rfl⟩, ⟨_, rfl⟩⟩

/-- `ReadsAlike` for **a batch on a cache that has been used**, or stopped. -/
theorem InProcess.readsAlike (h : c.InProcess) (hused : c.state ≠ .uninitialized) (w : World σ)
    (d : Diagnostics) (codec : Codec α) (keys : List String) :
    ReadsAlike (c.getMany w d codec keys) (getEach d codec keys {} c w) w := by
  cases hstate : c.state with
  | uninitialized => contradiction
  | stopped => exact (misses_stopped hstate).readsAlike w d codec keys
  | active b sweep =>
      rcases h.backend b sweep hstate with rfl | rfl | ⟨plan, hb⟩
      · exact (misses_disabled hstate).readsAlike w d codec keys
      · exact (misses_stoppedStore hstate).readsAlike w d codec keys
      · exact readsAlike_withStore hb hstate w d codec keys

/-- **A batch on a cache that has not been used** is one on the cache with its backend
built; so is a loop, if it has a first read. -/
theorem InProcess.readsAlike_of_ne_nil (h : c.InProcess) (hstate : c.state = .uninitialized)
    (w : World σ) (d : Diagnostics) (codec : Codec α) {keys : List String} (hkeys : keys ≠ []) :
    ReadsAlike (c.getMany w d codec keys) (getEach d codec keys {} c w) w := by
  obtain ⟨b, hb, -⟩ := h.ofConfig
  obtain ⟨key, keys, rfl⟩ := List.exists_cons_of_ne_nil hkeys
  rw [getMany_built hstate hb, getEach_built hstate hb]
  exact ((h.built hb w).readsAlike nofun _ d codec _).told

/-- A batch without keys does what `Cache.init` does. -/
theorem InProcess.getMany_nil (h : c.InProcess) (w : World σ) (d : Diagnostics) (codec : Codec α) :
    (c.getMany w d codec []).1 = [] ∧ (c.getMany w d codec []).2.1 = (c.init w).2.1 ∧
      ∃ notices, (c.getMany w d codec []).2.2 = w.tell notices := by
  -- in use or stopped, the cache is left as it is, as a loop without reads leaves it
  have hused {c : Cache} (h : c.InProcess) (hused : c.state ≠ .uninitialized) (w : World σ) :
      (c.getMany w d codec []).1 = [] ∧ (c.getMany w d codec []).2.1 = (c.init w).2.1 ∧
        ∃ notices, (c.getMany w d codec []).2.2 = w.tell notices := by
    have hreads := h.readsAlike hused w d codec []
    have hinit : (c.init w).2.1 = c := by
      cases hstate : c.state with
      | uninitialized => contradiction
      | active b sweep => rw [init_active hstate]
      | stopped => rw [init_refused (activate_stopped hstate w)]
    exact ⟨hreads.answer, hreads.cache.trans hinit.symm, hreads.many⟩
  by_cases hstate : c.state = .uninitialized
  · obtain ⟨b, hb, -⟩ := h.ofConfig
    rw [getMany_built hstate hb, init_built hstate hb]
    obtain ⟨hanswer, hcache, notices, hworld⟩ := hused (h.built hb w) nofun
      (w.tell (buildNotices c.config))
    exact ⟨hanswer, hcache, _, hworld.trans (tell_tell ..)⟩
  · exact hused h hstate w

/-- **A batch is a loop of reads**, on any cache that keeps its values in this process or
keeps none: not used yet, in use with any history or stopped, at any clock, for any codec
and any keys, listed any number of times. The batch answers what the loop keeps, and leaves
the same cache: phase, entries, tiers, orders of use, counters and sweep. The one
difference is a batch without keys on a cache that has not been used: it has the backend
built, and the loop does nothing. -/
theorem getMany_eq_getEach (h : c.InProcess) (w : World σ) (d : Diagnostics) (codec : Codec α)
    (keys : List String) :
    let many := c.getMany w d codec keys
    let each := getEach d codec keys {} c w
    many.1 = each.1.toList ∧
      (keys ≠ [] ∨ c.state ≠ .uninitialized → many.2.1 = each.2.1) ∧
      (keys = [] → many.2.1 = (c.init w).2.1 ∧ each.2.1 = c) ∧
      (∃ notices, many.2.2 = w.tell notices) ∧ ∃ notices, each.2.2 = w.tell notices := by
  intro many each
  by_cases halike : keys ≠ [] ∨ c.state ≠ .uninitialized
  · have hreads : ReadsAlike many each w := by
      by_cases hstate : c.state = .uninitialized
      · exact h.readsAlike_of_ne_nil hstate w d codec (halike.resolve_right (absurd hstate))
      · exact h.readsAlike hstate w d codec keys
    refine ⟨hreads.answer, fun _ => hreads.cache, ?_, hreads.many, hreads.each⟩
    rintro rfl
    exact ⟨(h.getMany_nil w d codec).2.1, rfl⟩
  · obtain rfl : keys = [] := by
      by_contra hkeys
      exact halike (.inl hkeys)
    obtain ⟨hanswer, hcache, hmany⟩ := h.getMany_nil w d codec
    exact ⟨hanswer, fun hnot => absurd hnot halike, fun _ => ⟨hcache, rfl⟩, hmany, [],
      (tell_nil w).symm⟩

/-- Two tiers of one entry each change places with every read of a batch that lists a key
twice, and a value that the codec does not read is left out. -/
theorem getMany_eq_getEach_promoting :
    let plan : CapacityPlan := entryPlan (some 1) (some 1)
    let w (clock : Int) : World Remote.ServerFarm := { clock, network := { servers := [] } }
    let bytes : Codec ByteArray := ⟨some, some⟩
    let short : Codec ByteArray := ⟨some, fun b => if b.size ≤ 1 then some b else none⟩
    let c := Cache.after { config := .localTiers plan }
      [.op (w 0) (.set bytes "a" ⟨#[1]⟩ 0), .op (w 1) (.set bytes "b" ⟨#[2, 2]⟩ 9)]
    let many := c.getMany (w 2) {} short ["a", "b", "a", "c"]
    let each := getEach {} short ["a", "b", "a", "c"] {} c (w 2)
    many.1 = [("a", ⟨#[1]⟩)] ∧ many.1 = each.1.toList ∧ many.2.1 = each.2.1 := by
  intro plan w bytes short c many each
  have hc : c.InProcess := inProcess_after (.inr ⟨plan, rfl⟩) _ _ _
  obtain ⟨hanswer, hcache, -⟩ := getMany_eq_getEach hc (w 2) {} short ["a", "b", "a", "c"]
  dsimp only [many, each]
  refine ⟨?_, hanswer, hcache (.inl (by simp))⟩
  simp only [c, short, bytes, w, plan]
  cbv

/-- A batch without keys is not the loop of no reads: the loop leaves a new cache as it is,
and the batch has its backend built. -/
theorem getMany_nil_ne_getEach :
    let c : Cache :=
      { config := .localTiers ⟨some (.entries 4), none⟩, cleanupInterval := .ofSeconds 0 }
    let w : World Remote.ServerFarm := { clock := 0, network := { servers := [] } }
    let codec : Codec ByteArray := ⟨some, some⟩
    c.InProcess ∧ (c.getMany w {} codec []).2.1.phase = .active ∧
      (getEach {} codec [] {} c w).2.1.phase = .uninitialized ∧
      (c.getMany w {} codec []).2.1 ≠ (getEach {} codec [] {} c w).2.1 := by
  intro c w codec
  have hmany : (c.getMany w {} codec []).2.1.phase = .active := rfl
  refine ⟨⟨.inr ⟨_, rfl⟩, nofun⟩, hmany, rfl, fun heq => ?_⟩
  rw [heq] at hmany
  cases hmany

end Cache

end CacheService
