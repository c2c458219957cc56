import CacheService.Proofs.Capacity.Plan
import CacheService.Proofs.Settings

/-!
# CacheService.Proofs.Settings.Selection

The choice of the backend. A configuration that does not name its backend is judged by the kinds
of its keys, and what the keys mean is for the resolvers to say. The two agree: a resolver
that finds something has a key of its kind (`Address.has_of_ofProperties`,
`CapacityPlan.has_of_ofProperties`), so that caching is never left off by mistake.

* `BackendConfig.ofProperties_of_unnamed` — the choice by the kinds of keys;
* `RemoteSettings.resolved_of_ofProperties`, `CapacityPlan.hasRoom_of_ofProperties` — what is
  resolved;
* `BackendConfig.selection_agrees` — the choice and the resolvers, for any configuration.
-/

namespace CacheService

variable {p : Properties}

/-! ## Kinds of keys -/

/-- A configuration has a key of a `kind`. -/
def Properties.Has (p : Properties) (kind : String → Prop) : Prop :=
  ∃ key, p.contains key = true ∧ kind key

/-- Without a key of the kind, no such key has a value. -/
theorem Properties.get?_of_not_has {kind : String → Prop} {key : String} (h : ¬p.Has kind)
    (hkey : kind key) : p.get? key = none := by
  rw [← Option.not_isSome_iff_eq_none]
  exact fun hpresent => h ⟨key, hpresent, hkey⟩

/-- The keys of hosts: the one without a number, and those with one (`NamesNode`). -/
def Address.NamesHosts (key : String) : Prop := key = hostKey ∨ ∃ n, NamesNode n key

/-- `hasHosts` looks for the keys of hosts. -/
theorem Address.hasHosts_iff : hasHosts p = true ↔ p.Has NamesHosts := by
  simp only [hasHosts, Bool.or_eq_true, List.any_eq_true, Option.isSome_iff_exists,
    hostNumber?_eq_some, Properties.mem_keys, ← Properties.contains_iff]
  constructor
  · rintro (h | ⟨key, h, n, hn⟩)
    · exact ⟨hostKey, h, .inl rfl⟩
    · exact ⟨key, h, .inr ⟨n, hn⟩⟩
  · rintro ⟨key, h, rfl | ⟨n, hn⟩⟩
    · exact .inl h
    · exact .inr ⟨key, h, n, hn⟩

/-- The keys of sizes. -/
def CapacityPlan.NamesSize (key : String) : Prop :=
  key = heapMbKey ∨ key = heapEntriesKey ∨ key = offHeapMbKey

/-- `hasSizing` looks for the keys of sizes. -/
theorem CapacityPlan.hasSizing_iff : hasSizing p = true ↔ p.Has NamesSize := by
  simp only [hasSizing, Bool.or_eq_true, or_assoc]
  constructor
  · rintro (h | h | h)
    · exact ⟨_, h, .inl rfl⟩
    · exact ⟨_, h, .inr (.inl rfl)⟩
    · exact ⟨_, h, .inr (.inr rfl)⟩
  · rintro ⟨key, h, rfl | rfl | rfl⟩
    · exact .inl h
    · exact .inr (.inl h)
    · exact .inr (.inr h)

/-! ## Resolvers without a key of their kind -/

/-- Without a key of hosts, no node list is resolved. -/
theorem Address.ofProperties_of_not_has (h : ¬p.Has NamesHosts) :
    ofProperties p = .error (.configuration .missingHosts) := by
  have hkeys : numbered p = [] := by
    refine List.eq_nil_iff_forall_not_mem.mpr fun (n, key) hmem => ?_
    obtain ⟨hpresent, hn⟩ := mem_numbered.mp hmem
    exact h ⟨key, Properties.contains_iff.mpr hpresent, .inr ⟨n, hn⟩⟩
  rw [ofProperties_of_numbered (Properties.get?_of_not_has h (.inl rfl)), numberedHosts_eq, hkeys]
  rfl

/-- A node list that is resolved has a key of hosts. -/
theorem Address.has_of_ofProperties {nodes : List Address} (h : ofProperties p = .ok nodes) :
    p.Has NamesHosts := by
  by_contra hnone
  rw [ofProperties_of_not_has hnone] at h
  contradiction

theorem Properties.getSize_of_none {key : String} (h : p.get? key = none) :
    p.getSize key = .ok 0 := by
  rw [getSize, getParsed, h]

/-- Without a key of sizes, no plan is resolved. -/
theorem CapacityPlan.ofProperties_of_not_has (h : ¬p.Has NamesSize) :
    ofProperties p = .error (.configuration .noSizes) := by
  have hzero {key : String} (hkey : NamesSize key) : p.getSize key = .ok 0 :=
    Properties.getSize_of_none (Properties.get?_of_not_has h hkey)
  rw [ofProperties, hzero (.inl rfl), hzero (.inr (.inl rfl)), hzero (.inr (.inr rfl))]
  rfl

/-- A plan that is resolved has a key of sizes. -/
theorem CapacityPlan.has_of_ofProperties {plan : CapacityPlan} (h : ofProperties p = .ok plan) :
    p.Has NamesSize := by
  by_contra hnone
  rw [ofProperties_of_not_has hnone] at h
  contradiction

/-! ## What is resolved -/

/-- There is a tier, and each tier there is lets something in. -/
structure CapacityPlan.HasRoom (plan : CapacityPlan) : Prop where
  tier : plan.heap ≠ none ∨ plan.offHeap ≠ none
  room : ∀ c, plan.heap = some c ∨ plan.offHeap = some c → c ≠ .entries 0 ∧ c ≠ .bytes 0

/-- A draft that is built `HasRoom`. -/
theorem CapacityPlan.Draft.hasRoom_of_build {d : Draft} {plan : CapacityPlan}
    (h : d.build = .ok plan) :
    plan.HasRoom := by
  obtain ⟨⟨c, hc, hroom⟩, hheap, hoffHeap⟩ := build_eq_ok.mp h
  refine ⟨?_, fun c hc => hc.elim (fun h => ((hheap c).mp h).2) fun h => ((hoffHeap c).mp h).2⟩
  rcases List.mem_append.mp hc with hc | hc
  · exact .inl (by simp [(hheap c).mpr ⟨hc, hroom⟩])
  · exact .inr (by simp [(hoffHeap c).mpr ⟨hc, hroom⟩])

/-- Whatever the sizes say, the plan comes out of a draft, and so it `HasRoom`. -/
theorem CapacityPlan.hasRoom_of_ofProperties {plan : CapacityPlan} (h : ofProperties p = .ok plan) :
    plan.HasRoom := by
  obtain ⟨heapMb, -, h⟩ := bind_eq_ok.mp h
  obtain ⟨heapEntries, -, h⟩ := bind_eq_ok.mp h
  obtain ⟨offHeapMb, -, h⟩ := bind_eq_ok.mp h
  unfold ofSizes at h
  split at h
  · contradiction
  · obtain ⟨draft, -, h⟩ := bind_eq_ok.mp h
    exact draft.hasRoom_of_build h

/-- The settings of a remote client as a configuration has them. -/
structure RemoteSettings.Resolved (p : Properties) (settings : RemoteSettings) : Prop where
  nodes : Address.ofProperties p = .ok settings.nodes
  nodes_ne_nil : settings.nodes ≠ []
  timeout : (Span.ofSeconds 1).toNanos ≤ settings.timeout.toNanos
  queue : 1 ≤ settings.queueCapacity
  credentials : settings.credentials.isSome = p.contains Credentials.userKey

/-- A user turns the login on, and nothing else does. -/
theorem Credentials.isSome_of_ofProperties {credentials : Option Credentials}
    (h : ofProperties p = .ok credentials) : credentials.isSome = p.contains userKey := by
  rw [Properties.contains]
  unfold ofProperties at h
  split at h
  · next hnone =>
      obtain rfl := Except.ok.inj h
      rw [hnone, Option.isSome_none, Option.isSome_none]
  · next user huser =>
      split at h
      · obtain rfl := Except.ok.inj h
        rw [huser, Option.isSome_some, Option.isSome_some]
      · contradiction

/-- The settings that `ofProperties` makes are `Resolved`. -/
theorem RemoteSettings.resolved_of_ofProperties {settings : RemoteSettings}
    (h : ofProperties p = .ok settings) : settings.Resolved p := by
  obtain ⟨hnodes, htimeout, hqueue, hcredentials⟩ := ofProperties_eq_ok h
  obtain ⟨n, hn, hne, -⟩ := timeoutOf_eq_ok htimeout
  refine ⟨hnodes, Address.ofProperties_ne_nil hnodes, ?_, queueCapacityOf_pos hqueue,
    Credentials.isSome_of_ofProperties hcredentials⟩
  have hpos : 1 ≤ n.toNat := Nat.one_le_iff_ne_zero.mpr fun h0 => hne (UInt64.toNat_inj.mp h0)
  rw [hn, Span.toNanos_ofSeconds, Span.toNanos_ofSeconds]
  exact Nat.mul_le_mul_right _ hpos

/-! ## The choice -/

namespace BackendConfig

open Address (NamesHosts)
open CapacityPlan (NamesSize)

/-- Without a name, the kinds of keys choose the backend. -/
theorem ofProperties_of_unnamed (h : p.get? implKey = none) :
    ofProperties p =
      match Address.hasHosts p, CapacityPlan.hasSizing p with
      | true, true => .error (.configuration .bothBackends)
      | true, false => remoteOf p
      | false, true => localOf p
      | false, false => .ok .disabled := by
  rw [ofProperties, h]
  rfl

section Unnamed

variable (h : p.get? implKey = none)
include h

/-- Keys of both kinds are an error. -/
theorem ofProperties_of_both (hhosts : p.Has NamesHosts) (hsizes : p.Has NamesSize) :
    ofProperties p = .error (.configuration .bothBackends) := by
  rw [ofProperties_of_unnamed h, Address.hasHosts_iff.mpr hhosts,
    CapacityPlan.hasSizing_iff.mpr hsizes]

/-- Keys of hosts alone choose the remote client. -/
theorem ofProperties_of_hosts (hhosts : p.Has NamesHosts) (hsizes : ¬p.Has NamesSize) :
    ofProperties p = remoteOf p := by
  rw [ofProperties_of_unnamed h, Address.hasHosts_iff.mpr hhosts,
    Bool.eq_false_iff.mpr (mt CapacityPlan.hasSizing_iff.mp hsizes)]

/-- Keys of sizes alone choose the local tiers. -/
theorem ofProperties_of_sizes (hsizes : p.Has NamesSize) (hhosts : ¬p.Has NamesHosts) :
    ofProperties p = localOf p := by
  rw [ofProperties_of_unnamed h, Bool.eq_false_iff.mpr (mt Address.hasHosts_iff.mp hhosts),
    CapacityPlan.hasSizing_iff.mpr hsizes]

/-- Caching is off exactly if there is no key of either kind. -/
theorem ofProperties_eq_disabled :
    ofProperties p = .ok .disabled ↔ ¬p.Has NamesSize ∧ ¬p.Has NamesHosts := by
  by_cases hhosts : p.Has NamesHosts <;> by_cases hsizes : p.Has NamesSize
  · rw [ofProperties_of_both h hhosts hsizes]
    exact ⟨nofun, fun hnone => absurd hsizes hnone.1⟩
  · rw [ofProperties_of_hosts h hhosts hsizes]
    exact ⟨fun hdisabled => absurd hdisabled (map_ne_ok nofun), fun hnone => absurd hhosts hnone.2⟩
  · rw [ofProperties_of_sizes h hsizes hhosts]
    exact ⟨fun hdisabled => absurd hdisabled (map_ne_ok nofun), fun hnone => absurd hsizes hnone.1⟩
  · rw [ofProperties_of_unnamed h, Bool.eq_false_iff.mpr (mt Address.hasHosts_iff.mp hhosts),
      Bool.eq_false_iff.mpr (mt CapacityPlan.hasSizing_iff.mp hsizes)]
    exact iff_of_true rfl ⟨hsizes, hhosts⟩

end Unnamed

/-- **Selection and resolution agree.** A configuration that does not name its backend turns
caching off exactly if it has no key of a size or of a host, and then neither resolver finds
anything. If one of them does, caching is on: keys of both kinds are an error, else the outcome is
that of the resolver of the keys there are. A remote backend, named or not, has the nodes of the
configuration, of which there is one, a second or more for an exchange, room for a command, and a
login if there is a user; a local one has a tier, and room in each tier. -/
theorem selection_agrees (p : Properties) :
    (p.get? implKey = none →
      (ofProperties p = .ok .disabled ↔ ¬p.Has NamesSize ∧ ¬p.Has NamesHosts) ∧
      (ofProperties p = .ok .disabled →
        Address.ofProperties p = .error (.configuration .missingHosts) ∧
        CapacityPlan.ofProperties p = .error (.configuration .noSizes)) ∧
      (∀ nodes, Address.ofProperties p = .ok nodes →
        p.Has NamesHosts ∧ ofProperties p ≠ .ok .disabled) ∧
      (∀ plan, CapacityPlan.ofProperties p = .ok plan →
        p.Has NamesSize ∧ ofProperties p ≠ .ok .disabled) ∧
      (p.Has NamesHosts → p.Has NamesSize →
        ofProperties p = .error (.configuration .bothBackends)) ∧
      (p.Has NamesHosts → ¬p.Has NamesSize →
        ofProperties p = (RemoteSettings.ofProperties p).map .remote) ∧
      (p.Has NamesSize → ¬p.Has NamesHosts →
        ofProperties p = (CapacityPlan.ofProperties p).map .localTiers)) ∧
    (∀ settings, ofProperties p = .ok (.remote settings) → settings.Resolved p) ∧
    ∀ plan, ofProperties p = .ok (.localTiers plan) → plan.HasRoom := by
  refine ⟨fun h => ⟨ofProperties_eq_disabled h, fun hdisabled => ?_, fun nodes hnodes => ?_,
    fun plan hplan => ?_, ofProperties_of_both h, ofProperties_of_hosts h, ofProperties_of_sizes h⟩,
    fun settings hremote => ?_, fun plan hlocal => ?_⟩
  · obtain ⟨hsizes, hhosts⟩ := (ofProperties_eq_disabled h).mp hdisabled
    exact ⟨Address.ofProperties_of_not_has hhosts, CapacityPlan.ofProperties_of_not_has hsizes⟩
  · have hhosts := Address.has_of_ofProperties hnodes
    exact ⟨hhosts, fun hdisabled => ((ofProperties_eq_disabled h).mp hdisabled).2 hhosts⟩
  · have hsizes := CapacityPlan.has_of_ofProperties hplan
    exact ⟨hsizes, fun hdisabled => ((ofProperties_eq_disabled h).mp hdisabled).1 hsizes⟩
  · rcases ofProperties_cases hremote with ⟨_, -, heq⟩ | ⟨_, hsettings, heq⟩ | heq
    · contradiction
    · obtain rfl := BackendConfig.remote.inj heq
      exact RemoteSettings.resolved_of_ofProperties hsettings
    · contradiction
  · rcases ofProperties_cases hlocal with ⟨_, hplan, heq⟩ | ⟨_, -, heq⟩ | heq
    · obtain rfl := BackendConfig.localTiers.inj heq
      exact CapacityPlan.hasRoom_of_ofProperties hplan
    · contradiction
    · contradiction

/-- A signed number in a key is enough for a remote backend, and a size beside a size of zero for
a local one. Keys of both kinds are refused unless the backend has a name, and a key whose number
is too large is no key of a host. -/
theorem selection_agrees_signed :
    let hosts := Properties.ofList [("cache.remote.+1.host", "[a]:1"), ("cache.remote.user", " u "),
      ("cache.remote.password", "s")]
    let sizes :=
      Properties.ofList [("cache.heapSizeInEntries", "4"), ("cache.offHeapSizeInMb", "0")]
    let both := sizes.insert "cache.remote.01.host" "a:1"
    let named := both.insert "cache.impl" " local "
    let neither := Properties.ofList [("cache.remote.4294967296.host", "a:1")]
    (∃ settings, ofProperties hosts = .ok (.remote settings) ∧ settings.Resolved hosts ∧
      settings.nodes = [⟨"a", 1⟩] ∧ settings.credentials = some ⟨"u", "s"⟩) ∧
    ofProperties sizes = .ok (.localTiers ⟨some (.entries 4), none⟩) ∧
    ofProperties both = .error (.configuration .bothBackends) ∧
    (∃ plan, ofProperties named = .ok (.localTiers plan) ∧ plan.HasRoom) ∧
    ofProperties neither = .ok .disabled ∧
    Address.ofProperties neither = .error (.configuration .missingHosts) := by
  intro hosts sizes both named neither
  have hnodes : Address.ofProperties hosts = .ok [⟨"a", 1⟩] := by
    have hfound : Address.found hosts = [(1, "cache.remote.+1.host")] := by decide
    rw [Address.ofProperties_of_numbered (by decide), Address.numberedHosts_eq,
      Address.numbered, hfound,
      List.mergeSort_singleton]
    decide
  have hsettings : RemoteSettings.ofProperties hosts =
      .ok ⟨[⟨"a", 1⟩], .ofSeconds 1, 1024, some ⟨"u", "s"⟩, none⟩ := by
    rw [RemoteSettings.ofProperties, hnodes]
    decide
  have hplan : CapacityPlan.ofProperties sizes = .ok ⟨some (.entries 4), none⟩ := by decide
  obtain ⟨hhostsKeys, hremote, -⟩ := selection_agrees hosts
  obtain ⟨-, -, hhas, -, -, hresult, -⟩ := hhostsKeys (by decide)
  have hselected := hresult (hhas _ hnodes).1 (mt CapacityPlan.hasSizing_iff.mpr (by decide))
  rw [hsettings] at hselected
  obtain ⟨hsizesKeys, -, -⟩ := selection_agrees sizes
  obtain ⟨-, -, -, hhasSizes, -, -, hlocal⟩ := hsizesKeys (by decide)
  obtain ⟨hbothKeys, -, -⟩ := selection_agrees both
  obtain ⟨-, -, -, -, hconflict, -, -⟩ := hbothKeys (by decide)
  have hnamed : ofProperties named = .ok (.localTiers ⟨some (.entries 4), none⟩) := by decide
  obtain ⟨hneitherKeys, -, -⟩ := selection_agrees neither
  obtain ⟨hdisabled, hfail, -⟩ := hneitherKeys (by decide)
  have hoff := hdisabled.mpr ⟨mt CapacityPlan.hasSizing_iff.mpr (by decide),
    mt Address.hasHosts_iff.mpr (by decide)⟩
  refine ⟨⟨_, hselected, hremote _ hselected, rfl, rfl⟩, ?_, ?_, ?_, hoff, (hfail hoff).1⟩
  · rw [hlocal (hhasSizes _ hplan).1 (mt Address.hasHosts_iff.mpr (by decide)), hplan]
    rfl
  · exact hconflict (Address.hasHosts_iff.mp (by decide))
      (CapacityPlan.hasSizing_iff.mp (by decide))
  · exact ⟨_, hnamed, (selection_agrees named).2.2 _ hnamed⟩

end BackendConfig

end CacheService
