import CacheService.Settings
import CacheService.Proofs.Address.NodeList

/-!
# CacheService.Proofs.Settings

What a configuration holds that has been accepted (`BackendConfig.Accepted`): a remote
client has a node, room for a command on it, and a time limit that an expression can
stand for (`RemoteSettings.Accepted`). Each part of the settings is what its own
resolver says of the configuration (`RemoteSettings.ofProperties_eq_ok`), and a backend,
chosen by its name or by the keys, is what its resolver says
(`BackendConfig.ofProperties_cases`); so whatever is resolved is accepted
(`BackendConfig.accepted_of_ofProperties`).
-/

namespace CacheService

/-! ## What is accepted -/

/-- The settings of a remote client that pass the checks. -/
structure RemoteSettings.Accepted (settings : RemoteSettings) : Prop where
  nodes : settings.nodes ≠ []
  timeout : settings.timeout.secs.toNat ≤ Duration.maxSeconds
  queue : 0 < settings.queueCapacity

/-- The settings of a backend that pass the checks; only a remote one has any. -/
def BackendConfig.Accepted : BackendConfig → Prop
  | .remote settings => settings.Accepted
  | .localTiers _ | .disabled => True

variable {p : Properties} {config : BackendConfig} {settings : RemoteSettings}

/-- A time limit is an expression, or a second; it is never zero. -/
theorem RemoteSettings.timeoutOf_eq_ok {timeout : Span} (h : timeoutOf p = .ok timeout) :
    ∃ n : UInt64, timeout = .ofSeconds n ∧ n ≠ 0 ∧ n.toNat ≤ Duration.maxSeconds := by
  have hchecked {n : UInt64} (hn : n.toNat ≤ Duration.maxSeconds)
      (h : (if (Span.ofSeconds n).isZero then .error (.configuration (.notPositive timeoutKey))
        else .ok (.ofSeconds n)) = (.ok timeout : Except CacheError _)) :
      ∃ n : UInt64, timeout = .ofSeconds n ∧ n ≠ 0 ∧ n.toNat ≤ Duration.maxSeconds := by
    split at h
    · contradiction
    · next hzero =>
        refine ⟨n, (Except.ok.inj h).symm, ?_, hn⟩
        rintro rfl
        exact hzero (by decide)
  unfold timeoutOf at h
  dsimp only at h
  split at h
  · exact hchecked (n := 1) (by decide) h
  · split at h
    · next seconds _ =>
        have hseconds : seconds.toUInt64.toNat ≤ Duration.maxSeconds :=
          Nat.le_pred_of_lt seconds.toNat_lt
        exact hchecked hseconds h
    · contradiction

/-- A queue that is accepted has room for a command. -/
theorem RemoteSettings.queueCapacityOf_pos {size : Nat} (h : queueCapacityOf p = .ok size) :
    0 < size := by
  obtain ⟨parsed, -, h⟩ := bind_eq_ok.mp h
  split at h
  · contradiction
  · obtain rfl := Except.ok.inj h
    exact Nat.pos_of_ne_zero ‹_›

/-- The parts of the settings, each from its own resolver. -/
theorem RemoteSettings.ofProperties_eq_ok (h : ofProperties p = .ok settings) :
    Address.ofProperties p = .ok settings.nodes ∧ timeoutOf p = .ok settings.timeout ∧
      queueCapacityOf p = .ok settings.queueCapacity ∧
      Credentials.ofProperties p = .ok settings.credentials := by
  obtain ⟨nodes, hnodes, h⟩ := bind_eq_ok.mp h
  obtain ⟨timeout, htimeout, h⟩ := bind_eq_ok.mp h
  obtain ⟨size, hsize, h⟩ := bind_eq_ok.mp h
  obtain ⟨credentials, hcredentials, h⟩ := bind_eq_ok.mp h
  obtain rfl := Except.ok.inj h
  exact ⟨hnodes, htimeout, hsize, hcredentials⟩

/-- The settings of a remote client that are resolved are `Accepted`. -/
theorem RemoteSettings.accepted_of_ofProperties (h : ofProperties p = .ok settings) :
    settings.Accepted := by
  obtain ⟨hnodes, htimeout, hsize, -⟩ := ofProperties_eq_ok h
  obtain ⟨n, hn, -, hle⟩ := timeoutOf_eq_ok htimeout
  exact ⟨Address.ofProperties_ne_nil hnodes, hn ▸ hle, queueCapacityOf_pos hsize⟩

/-- A backend that has been chosen, by its name or by the keys, is what its resolver says. -/
theorem BackendConfig.ofProperties_cases (h : ofProperties p = .ok config) :
    (∃ plan, CapacityPlan.ofProperties p = .ok plan ∧ config = .localTiers plan) ∨
      (∃ settings, RemoteSettings.ofProperties p = .ok settings ∧ config = .remote settings) ∨
      config = .disabled := by
  have hlocal (h : localOf p = .ok config) :
      ∃ plan, CapacityPlan.ofProperties p = .ok plan ∧ config = .localTiers plan := by
    obtain ⟨plan, hplan, rfl⟩ := map_eq_ok.mp h
    exact ⟨plan, hplan, rfl⟩
  have hremote (h : remoteOf p = .ok config) :
      ∃ settings, RemoteSettings.ofProperties p = .ok settings ∧ config = .remote settings := by
    obtain ⟨settings, hsettings, rfl⟩ := map_eq_ok.mp h
    exact ⟨settings, hsettings, rfl⟩
  unfold ofProperties at h
  split at h
  · split at h
    · exact .inl (hlocal h)
    · split at h
      · exact .inr (.inl (hremote h))
      · split at h
        · exact .inr (.inr (Except.ok.inj h).symm)
        · contradiction
  · split at h
    · contradiction
    · exact .inr (.inl (hremote h))
    · exact .inl (hlocal h)
    · exact .inr (.inr (Except.ok.inj h).symm)

/-- **Whatever is resolved** is `Accepted`. -/
theorem BackendConfig.accepted_of_ofProperties (h : ofProperties p = .ok config) :
    config.Accepted := by
  rcases ofProperties_cases h with ⟨plan, -, rfl⟩ | ⟨settings, hsettings, rfl⟩ | rfl
  · trivial
  · exact RemoteSettings.accepted_of_ofProperties hsettings
  · trivial

end CacheService
