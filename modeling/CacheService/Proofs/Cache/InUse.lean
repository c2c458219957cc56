import CacheService.Proofs.Cache.Lifecycle

/-!
# CacheService.Proofs.Cache.InUse

What holds of the backend of a cache as long as it is in use. A backend is built by the
first operation that needs it, and changes by the calls of operations, by the sweep,
and by the workers of a remote client. A property that all three keep
(`Backend.Preserved`) holds of the backend in use after every run of the cache
(`Cache.inUse_after`), by one lemma for each kind of step (`inUse_perform`,
`inUse_advance`, `inUse_quiesce`).

The property may depend on how much has been asked (`Op.weight`): a read of several keys
counts as one operation for each key.
-/

namespace CacheService

open Remote (Network)

namespace Backend

/-- The operations that a call counts as. -/
def Call.weight : Call → Nat
  | .getMany keys => keys.length
  | .get _ | .set .. | .delete _ | .clear | .stop | .cleanup => 1

/-- A property of the backends of a configuration, after so many operations at most,
that whatever happens to a backend in use keeps. -/
structure Preserved (σ : Type) [Network σ] (config : BackendConfig) (P : Nat → Backend → Prop) :
    Prop where
  built : ∀ b, Backend.ofConfig config = .ok b → P 0 b
  more : ∀ n m b, n ≤ m → P n b → P m b
  call : ∀ n b (w : World σ) (call : Call), call ≠ .stop → P n b →
    P (n + call.weight) (b.perform w call).2.1
  sweep : ∀ n b (w : World σ), P n b → P n (b.cleanup w).2.1
  workers : ∀ n c (w : World σ), P n (.remote c) → P n (.remote (live c w).quiesce.cluster)

end Backend

namespace Cache

variable {σ : Type}

/-! ## How much is asked -/

/-- The operations that an operation counts as. -/
def Op.weight : Op → Nat
  | .getMany _ _ keys => keys.length
  | .init | .get .. | .set .. | .setFor .. | .delete _ | .clear | .stats | .state | .stop => 1

/-- The operations that a step counts as: nobody asks for a sweep. -/
def Step.weight : Step σ → Nat
  | .op _ asked => asked.weight
  | .elapse .. | .drain _ => 0

/-- An operation weighs as the call that it makes. -/
theorem Op.weight_of_call? {op : Op} {call : Backend.Call} (h : op.call? = some call) :
    call.weight = op.weight := by
  have hset {key : String} {ttl : UInt32} {bytes : Option ByteArray}
      (h : bytes.map (.set key · ttl) = some call) : call.weight = 1 := by
    obtain ⟨bytes, -, rfl⟩ := Option.map_eq_some_iff.mp h
    rfl
  cases op with
  | set codec key value ttl => exact hset h
  | setFor codec key value expiration =>
      unfold Op.call? at h
      dsimp only at h
      split at h
      · exact hset h
      · contradiction
  | init => contradiction
  | stats => contradiction
  | state => contradiction
  | _ =>
      obtain rfl := Option.some.inj h
      rfl

/-! ## The backend in use -/

/-- A cache of a configuration whose backend, while it is in use, has the property `P`. -/
structure InUse (config : BackendConfig) (P : Nat → Backend → Prop) (n : Nat)
    (c : Cache) : Prop where
  sound : c.Sound config
  holds : ∀ b sweep, c.state = .active b sweep → P n b

variable [Network σ] {config : BackendConfig} {P : Nat → Backend → Prop} {n : Nat} {c : Cache}
  {b : Backend} {sweep : Option Sweep}

/-- `InUse` after more operations. -/
theorem InUse.mono (h : c.InUse config P n) (hP : Backend.Preserved σ config P) (more : Nat) :
    c.InUse config P (n + more) :=
  ⟨h.sound, fun b sweep hb => hP.more _ _ b (Nat.le_add_right n more) (h.holds b sweep hb)⟩

/-- An operation on a cache in use is passed on to its backend, and `InUse` stays. -/
theorem InUse.pass (h : c.InUse config P n) (hP : Backend.Preserved σ config P)
    (hstate : c.state = .active b sweep) (w : World σ) {op : Op} (hruns : op.isStop = false) :
    (c.perform w op).2.1.InUse config P (n + op.weight) := by
  refine ⟨(sound_perform h.sound w op).1, fun b' sweep' hb' => ?_⟩
  have hb := h.holds b sweep hstate
  obtain ⟨notices, hleft⟩ := perform_active (w := w) hstate hruns
  rw [hleft] at hb'
  obtain ⟨rfl, -⟩ := State.active.inj hb'
  unfold Op.use
  cases hcall : op.call? with
  | none => exact hP.more _ _ b (Nat.le_add_right n _) hb
  | some call =>
      have hstop : call ≠ .stop := by
        rintro rfl
        exact call?_ne_stop hruns hcall
      rw [← Op.weight_of_call? hcall]
      exact hP.call n b w call hstop hb

/-- `InUse` after an operation of any kind. -/
theorem inUse_perform (h : c.InUse config P n) (hP : Backend.Preserved σ config P) (w : World σ)
    (op : Op) : (c.perform w op).2.1.InUse config P (n + op.weight) := by
  have hbehaves := h.sound.behaves w op
  have hstays := h.mono hP op.weight
  cases hruns : op.isStop with
  | true =>
      refine ⟨(sound_perform h.sound w op).1, fun b sweep hb => ?_⟩
      rw [hbehaves.stops hruns] at hb
      contradiction
  | false =>
      cases hstate : c.state with
      | uninitialized =>
          cases hneeds : op.needsBackend with
          | false =>
              rw [hbehaves.idles hstate hneeds hruns]
              exact hstays
          | true =>
              cases hb : Backend.ofConfig config with
              | error e =>
                  obtain ⟨notices, hanswer⟩ := hbehaves.fails e hstate hb hneeds
                  rw [hanswer]
                  exact hstays
              | ok b =>
                  have hbuilt : (c.built b w).InUse config P n := by
                    refine ⟨sound_built h.sound (h.sound.config ▸ hb), fun b' sweep hb' => ?_⟩
                    obtain ⟨rfl, -⟩ := State.active.inj hb'
                    exact hP.more 0 n b (Nat.zero_le n) (hP.built b hb)
                  rw [hbehaves.builds b hstate hb hneeds]
                  exact hbuilt.pass hP rfl _ hruns
      | active b sweep => exact h.pass hP hstate w hruns
      | stopped =>
          rw [hbehaves.refuses hstate hruns]
          exact hstays

/-- `InUse` after a sweep that is due. -/
theorem inUse_advance (h : c.InUse config P n) (hP : Backend.Preserved σ config P) (w : World σ)
    (millis : Int) : (c.advance w millis).1.InUse config P n := by
  refine ⟨(sound_advance h.sound w millis).1, fun b' sweep' hb' => ?_⟩
  unfold advance at hb'
  cases hstate : c.state with
  | active b sweep =>
      have hb := h.holds b sweep hstate
      simp only [hstate] at hb'
      obtain ⟨rfl, -⟩ := State.active.inj hb'
      cases sweep with
      | none => exact hb
      | some sweep =>
          have hswept := hP.sweep n b (w.advance millis) hb
          unfold Sweep.tick? Sweep.tick
          dsimp only
          split
          · rcases hresult : b.cleanup (w.advance millis) with ⟨e | removed, b', w'⟩ <;>
              simpa [hresult] using hswept
          · exact hb
  | _ => simp [hstate] at hb'

/-- `InUse` after the workers have run. -/
theorem inUse_quiesce (h : c.InUse config P n) (hP : Backend.Preserved σ config P) (w : World σ) :
    (c.quiesce w).1.InUse config P n := by
  refine ⟨(sound_quiesce h.sound w).1, fun b' sweep' hb' => ?_⟩
  unfold quiesce at hb'
  cases hstate : c.state with
  | active b sweep =>
      have hb := h.holds b sweep hstate
      cases b with
      | remote cluster =>
          simp only [hstate] at hb'
          obtain ⟨rfl, -⟩ := State.active.inj hb'
          exact hP.workers n cluster w hb
      | _ =>
          simp only [hstate] at hb'
          obtain ⟨rfl, -⟩ := State.active.inj hb'
          exact hb
  | _ => simp [hstate] at hb'

/-- **One step** of a cache keeps `InUse`. -/
theorem inUse_step (h : c.InUse config P n) (hP : Backend.Preserved σ config P) (st : Step σ) :
    (c.step st).InUse config P (n + st.weight) := by
  cases st with
  | op w op => exact inUse_perform h hP w op
  | elapse w millis => exact inUse_advance h hP w millis
  | drain w => exact inUse_quiesce h hP w

/-- **A run** keeps `InUse`. -/
theorem InUse.after (h : c.InUse config P n) (hP : Backend.Preserved σ config P)
    (steps : List (Step σ)) : (c.after steps).InUse config P (n + (steps.map Step.weight).sum) := by
  induction steps generalizing c n with
  | nil => exact h
  | cons st steps ih =>
      have hrest := ih (inUse_step h hP st)
      rwa [Nat.add_assoc, ← List.sum_cons, ← List.map_cons] at hrest

/-- **The backend in use** after any run of a fresh cache. -/
theorem inUse_after (hP : Backend.Preserved σ config P) (interval : Span) (hasTimer : Bool)
    (steps : List (Step σ)) :
    (Cache.after { config, cleanupInterval := interval, hasTimer } steps).InUse config P
      (steps.map Step.weight).sum := by
  have hfresh : InUse config P 0 { config, cleanupInterval := interval, hasTimer } :=
    ⟨sound_fresh config interval hasTimer, by simp⟩
  simpa using hfresh.after hP steps

end Cache

end CacheService
