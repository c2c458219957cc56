import CacheService.Proofs.Cache.LocalStore
import CacheService.Proofs.Store.Placement
import CacheService.Remote.Server

/-!
# CacheService.Proofs.Cache.TypedValues

Typed values on a cache that keeps them in this process. The store knows bytes only, so
a codec comes in at both ends: `set_encoded` and `get_decoded` say what a write and a
read come to in terms of the store, for any codec, and a value that cannot be encoded
leaves the cache as it is (`set_unencodable`). What the store does with the bytes is
said in `CacheService.Proofs.Store.Placement`; `ServesTyped` puts both together, and
`typed_values` says it of a cache after any run.
-/

namespace CacheService

namespace Cache

open Remote (Network)

variable {σ : Type} [Network σ] {α β : Type} {c : Cache} {s : Store} {sweep : Option Sweep}

/-- The cache in use with the store `s`. -/
def withStore (c : Cache) (s : Store) (sweep : Option Sweep) : Cache :=
  { c with state := .active (.localTiers (some s)) sweep }

omit [Network σ] in
theorem state_withStore (c : Cache) (s : Store) (sweep : Option Sweep) :
    (c.withStore s sweep).state = .active (.localTiers (some s)) sweep := rfl

/-! ## Through the codec -/

/-- A write stores what the value is encoded as. -/
theorem set_encoded (hstate : c.state = .active (.localTiers (some s)) sweep) {codec : Codec α}
    {value : α} {bytes : ByteArray} (hbytes : codec.encode value = some bytes) (w : World σ)
    (key : String) (ttl : UInt32) :
    c.set w codec key value ttl = (.ok (), c.withStore (s.set w.now key bytes ttl) sweep, w) := by
  have hencoded : codec.encode? value = .ok bytes := by simp [Codec.encode?, hbytes]
  simp only [set, hencoded, onBackend_active hstate]
  rfl

/-- A value that cannot be encoded is not written, and nothing changes. -/
theorem set_unencodable (hstate : c.state = .active (.localTiers (some s)) sweep) {codec : Codec α}
    {value : α} (hnone : codec.encode value = none) (w : World σ) (key : String) (ttl : UInt32) :
    ∃ notices, c.set w codec key value ttl = (.ok (), c, w.tell notices) := by
  have hencoded : codec.encode? value = .error (.serialization .unencodable) := by
    simp [Codec.encode?, hnone]
  simp only [set, hencoded, init_active hstate]
  exact ⟨_, rfl⟩

/-- A read answers what the bytes that the store finds are decoded as. -/
theorem get_decoded (hstate : c.state = .active (.localTiers (some s)) sweep) (w : World σ)
    (d : Diagnostics) (codec : Codec α) (key : String) :
    ∃ notices, c.get w d codec key =
      ((s.get w.now key).1.bind codec.decode, c.withStore (s.get w.now key).2 sweep,
        w.tell notices) := by
  have hread : (Backend.localTiers (some s)).get w key =
      (.ok (s.get w.now key).1, .localTiers (some (s.get w.now key).2), w) := rfl
  simp only [get, onBackend_active hstate, hread]
  cases (s.get w.now key).1 with
  | none => exact ⟨[], by rw [tell_nil]; rfl⟩
  | some bytes =>
      cases hvalue : codec.decode bytes <;>
        simp only [decode, Codec.decode?, hvalue, Option.bind_some] <;> exact ⟨_, rfl⟩

/-! ## Typed values -/

/-- What writes and reads of typed values come to on a cache with a store. -/
structure ServesTyped (σ : Type) [Network σ] (c : Cache) (s : Store) : Prop where
  /-- A value that is read back at the clock of its write is there if some tier admits
  its bytes, unless its lifetime is cut off by the largest time. -/
  roundTrip : ∀ {α β : Type} (w w' : World σ) (codec : Codec α) (reader : Codec β) (d : Diagnostics)
    (key : String) (value : α) (bytes : ByteArray) (x : β) (ttl : UInt32),
    codec.encode value = some bytes → reader.decode bytes = some x → w'.now = w.now →
    (c.set w codec key value ttl).1 = .ok () ∧
      ((c.set w codec key value ttl).2.1.get w' d reader key).1 =
        if s.admits (key.utf8ByteSize + bytes.size + Entry.overhead) ∧
            (ttl = 0 ∨ w.now.toNat < 2 ^ 64 - 1) then some x
        else none
  /-- A value that cannot be encoded is reported, and nothing else happens. -/
  unencodable :
    ∀ {α : Type} (w : World σ) (codec : Codec α) (key : String) (value : α) (ttl : UInt32),
    codec.encode value = none →
    ∃ notices, c.set w codec key value ttl = (.ok (), c, w.tell notices)
  /-- A live entry that cannot be decoded is a miss, and stays for those who can. -/
  mistyped :
    ∀ {α : Type} (w : World σ) (codec : Codec α) (d : Diagnostics) (key : String) (e : Entry),
    s.live? w.now key = some e → codec.decode e.value = none →
    (c.get w d codec key).1 = none ∧
      (∃ s' sweep, (c.get w d codec key).2.1.state = .active (.localTiers (some s')) sweep ∧
        s'.find? key = some e) ∧
      ∀ {β : Type} (w' : World σ) (reader : Codec β) (d' : Diagnostics) (x : β),
        e.isExpiredAt w'.now = false → reader.decode e.value = some x →
        ((c.get w d codec key).2.1.get w' d' reader key).1 = some x

/-- A cache with a `Valid` store `ServesTyped`. -/
theorem servesTyped_of_valid {plan : CapacityPlan} (hv : s.Valid plan .entryTtl)
    (hstate : c.state = .active (.localTiers (some s)) sweep) : c.ServesTyped σ s where
  roundTrip := by
    intro α β w w' codec reader d key value bytes x ttl hbytes hx hclock
    obtain ⟨notices, hread⟩ :=
      get_decoded (c.state_withStore (s.set w.now key bytes ttl) sweep) w' d reader key
    have hfootprint : (Entry.written w.now bytes ttl).footprint key =
        key.utf8ByteSize + bytes.size + Entry.overhead := rfl
    rw [set_encoded hstate hbytes, hread, hclock, Store.get_set hv, hfootprint]
    refine ⟨rfl, ?_⟩
    by_cases h : s.admits (key.utf8ByteSize + bytes.size + Entry.overhead) ∧
        (ttl = 0 ∨ w.now.toNat < 2 ^ 64 - 1)
    · rw [if_pos h, if_pos h]
      exact hx
    · rw [if_neg h, if_neg h]
      rfl
  unencodable w codec key value ttl hnone := set_unencodable hstate hnone w key ttl
  mistyped := by
    intro α w codec d key e he hnone
    obtain ⟨notices, hread⟩ := get_decoded hstate w d codec key
    obtain ⟨hanswer, hvalid, -⟩ := Store.get_spec hv w.now key
    rw [he, Option.map_some] at hanswer
    have hkept : (s.get w.now key).2.find? key = some e := Store.find?_get_of_live hv he
    rw [hread, hanswer]
    refine ⟨hnone, ⟨_, sweep, rfl, hkept⟩, fun w' reader d' x hlive hx => ?_⟩
    obtain ⟨notices', hread'⟩ :=
      get_decoded (c.state_withStore (s.get w.now key).2 sweep) w' d' reader key
    have hlive' : (s.get w.now key).2.live? w'.now key = some e := by
      simp [Store.live?, hkept, hlive, Option.filter]
    rw [hread', (Store.get_spec hvalid w'.now key).1, hlive']
    exact hx

/-- **Typed values on a local cache**, in use after any run, whatever its plan and at
whatever clocks. A value that a codec encodes is read back, at the clock of its write and
by any codec that decodes its bytes, exactly if some tier admits them, a null as a null
and not as a miss; only a lifetime that the largest time cuts off to nothing is over at
once. A value that cannot be encoded changes nothing. A live entry that is read as
another type is a miss, and is still there for a read as its own. -/
theorem typed_values (σ : Type) [Network σ] (plan : CapacityPlan) (interval : Span)
    (hasTimer : Bool)
    (steps : List (Step σ)) :
    let c := Cache.after { config := .localTiers plan, cleanupInterval := interval, hasTimer } steps
    c.phase = .active → ∃ s sweep, c.state = .active (.localTiers (some s)) sweep ∧
      c.ServesTyped σ s := by
  intro c hactive
  obtain ⟨b, sweep, hstate⟩ : ∃ b sweep, c.state = .active b sweep := by
    unfold phase at hactive
    split at hactive <;> first | contradiction | exact ⟨_, _, ‹_›⟩
  obtain ⟨calls, rfl⟩ := store_after plan interval hasTimer steps hstate
  have hv := Store.valid_after (Store.valid_empty plan .entryTtl) calls
  exact ⟨_, sweep, hstate, servesTyped_of_valid hv hstate⟩

/-- A heap tier for one entry over an off-heap tier of bytes. A null is read back as a
null while it pushes another entry out of the heap tier; a table that has no JSON text is
not written; and a null that is read as a text is missed, and then found as what it is. -/
theorem typed_values_null :
    let plan : CapacityPlan := ⟨some (.entries 1), some (.bytes 200)⟩
    let w (clock : Int) : World Remote.ServerFarm := { clock, network := { servers := [] } }
    let optional : Codec Datum := .binary (.option (.natural 1))
    let text : Codec Datum := .binary .string
    let table : Codec Datum := .json (.table (.tuple []) (.natural 1))
    let steps : List (Step Remote.ServerFarm) :=
      [.op (w 0) (.set optional "a" .none 1), .op (w 1) (.set optional "b" .none 1)]
    let c := Cache.after { config := .localTiers plan } steps
    ((c.set (w 5) optional "c" .none 1).2.1.get (w 5) {} optional "c").1 = some .none ∧
      (∃ notices, c.set (w 5) table "a" (.table [(.items [], .int 2)]) 1 =
        (.ok (), c, (w 5).tell notices)) ∧
      (c.get (w 5) {} text "a").1 = none ∧
      ((c.get (w 5) {} text "a").2.1.get (w 6) {} optional "a").1 = some .none := by
  intro plan w optional text table steps c
  let s₀ : Store := Store.after (.empty plan .entryTtl)
    [⟨0, .set "a" ⟨#[0]⟩ 1⟩, ⟨1, .set "b" ⟨#[0]⟩ 1⟩]
  have hstore : c.state = .active (.localTiers (some s₀)) (some (.start 1000 0)) := by
    simp only [c, steps, w, optional, s₀, plan]
    rfl
  obtain ⟨s, sweep, hstate, hserves⟩ :=
    typed_values Remote.ServerFarm plan (.ofSeconds 1) true steps rfl
  obtain rfl : s₀ = s := by
    have hsame := hstore.symm.trans hstate
    injection hsame with hbackend
    injection hbackend with hsome
    exact Option.some.inj hsome
  have hdecode : optional.decode ⟨#[0]⟩ = some .none := by cbv
  have hlive : s₀.live? 5 "a" = some (Entry.written 0 ⟨#[0]⟩ 1) := by
    simp only [s₀, plan]
    cbv
  have hwrites :=
    hserves.roundTrip (w 5) (w 5) optional optional {} "c" .none ⟨#[0]⟩ .none 1 rfl hdecode rfl
  have hadmits : s₀.admits ("c".utf8ByteSize + ByteArray.size ⟨#[0]⟩ + Entry.overhead) = true := by
    simp only [s₀, plan]
    cbv
  have hreads := hserves.mistyped (w 5) text {} "a" _ hlive (by cbv)
  refine ⟨?_, hserves.unencodable (w 5) table "a" _ 1 rfl, hreads.1, ?_⟩
  · rw [hwrites.2, if_pos ⟨hadmits, .inr (by decide)⟩]
  · exact hreads.2.2 (w 6) optional {} .none (by cbv) hdecode

/-- A tier admits a value that is then not found, since the clock reads the largest time
and the lifetime is over as it begins. And a read as another type takes out an entry that
has expired, so that it is not there for its own type even if the clock is set back. -/
theorem typed_values_expired :
    let plan : CapacityPlan := ⟨some (.entries 1), none⟩
    let w (clock : Int) : World Remote.ServerFarm := { clock, network := { servers := [] } }
    let optional : Codec Datum := .binary (.option (.natural 1))
    let text : Codec Datum := .binary .string
    let c := Cache.after { config := .localTiers plan } [.op (w 0) .init]
    let c' := (c.set (w 0) optional "k" .none 1).2.1
    (∃ s sweep, c.state = .active (.localTiers (some s)) sweep ∧
        s.admits ("k".utf8ByteSize + ByteArray.size ⟨#[0]⟩ + Entry.overhead) = true) ∧
      optional.encode .none = some ⟨#[0]⟩ ∧ optional.decode ⟨#[0]⟩ = some .none ∧
      text.decode ⟨#[0]⟩ = none ∧
      ((c.set (w (2 ^ 64 - 1)) optional "k" .none 1).2.1.get (w (2 ^ 64 - 1)) {} optional "k").1 =
        none ∧
      (c'.get (w 0) {} optional "k").1 = some .none ∧
      ((c'.get (w 1000) {} text "k").2.1.get (w 0) {} optional "k").1 = none := by
  intro plan w optional text c c'
  have hstate : c.state =
      .active (.localTiers (some (.empty plan .entryTtl))) (some (.start 1000 0)) := by
    simp only [c, w, plan]
    rfl
  refine ⟨⟨_, _, hstate, by decide⟩, rfl, by cbv, by cbv, ?_, ?_, ?_⟩
  · simp only [c, plan, w, optional]
    cbv
  · simp only [c', c, plan, w, optional]
    cbv
  · simp only [c', c, plan, w, optional, text]
    cbv

end Cache

end CacheService
