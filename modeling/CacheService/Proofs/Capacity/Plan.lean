import CacheService.Capacity.Plan
import CacheService.Proofs.Outcome
import Mathlib.Algebra.Group.Nat.Defs

/-!
# CacheService.Proofs.Capacity.Plan

Which sequences of steps make a capacity plan. Each tier of a draft is a slot for one
bound, which takes the bounds that the steps give it.

* `heapBounds` and `offHeapBounds` — what the steps give to each tier. Steps are taken
  if these find room in the slots (`Takes`, `foldlM_apply_eq_ok`).
* `HoldsNonzero` — building the draft keeps the bounds that let something in
  (`Draft.build_eq_ok`).
* `PlansFor` — both together: steps make a plan exactly if it is the plan for their
  bounds (`ofSteps_eq_ok`). So the order of steps is of no account for the plan
  (`ofSteps_perm`), and three sizes make the plan that the steps of the nonzero ones
  make (`ofSizes_eq_ok`).
-/

namespace CacheService

/-- A bound that lets something in. -/
def Capacity.Nonzero (c : Capacity) : Prop := c ≠ .entries 0 ∧ c ≠ .bytes 0

/-- `isZero` says which bounds let nothing in. -/
theorem Capacity.isZero_eq_false {c : Capacity} : c.isZero = false ↔ c.Nonzero := by
  cases c <;> simp [isZero, Nonzero]

/-- A number of entries other than zero is `Nonzero`. -/
theorem Capacity.nonzero_entries {n : UInt64} (h : n ≠ 0) : (Capacity.entries n).Nonzero := by
  simpa [Nonzero] using h

/-- So are some megabytes, even if there are more of them than bytes can be told. -/
theorem Capacity.nonzero_megabytes {mb : UInt64} (h : mb ≠ 0) : (megabytes mb).Nonzero := by
  obtain ⟨n, hn, hbytes⟩ := megabytes_eq mb
  have hpos : mb.toNat ≠ 0 := fun h0 => h (UInt64.toNat_inj.mp h0)
  have hne : n ≠ 0 := by
    rintro rfl
    simp [maxSize] at hbytes
    omega
  simpa [hn, Nonzero] using hne

namespace CapacityPlan

/-! ## What steps give -/

/-- The bound that a step gives to the heap tier. -/
def Step.heapBound? : Step → Option Capacity
  | .heap c => some c
  | .offHeap _ | .offHeapCapacity _ => none

/-- The bound that a step gives to the off-heap tier. -/
def Step.offHeapBound? : Step → Option Capacity
  | .heap _ => none
  | .offHeap mb => some (.megabytes mb)
  | .offHeapCapacity c => some c

/-- The bounds that steps give to the heap tier, in order. -/
def heapBounds (steps : List Step) : List Capacity := steps.filterMap Step.heapBound?

/-- The bounds that steps give to the off-heap tier, in order. -/
def offHeapBounds (steps : List Step) : List Capacity := steps.filterMap Step.offHeapBound?

variable {d d' : Draft} {step : Step} {steps steps' : List Step} {plan : CapacityPlan}

theorem heapBounds_cons :
    heapBounds (step :: steps) = step.heapBound?.toList ++ heapBounds steps := by
  cases step <;> rfl

theorem offHeapBounds_cons :
    offHeapBounds (step :: steps) = step.offHeapBound?.toList ++ offHeapBounds steps := by
  cases step <;> rfl

/-! ## Slots -/

variable {slot slot' : Option Capacity} {bounds rest : List Capacity}

/-- A slot that holds one bound at most, before and after it takes `bounds`. -/
def Takes (slot : Option Capacity) (bounds : List Capacity) (slot' : Option Capacity) : Prop :=
  slot'.toList = slot.toList ++ bounds

/-- A slot that takes no bounds stays as it is. -/
theorem takes_nil : Takes slot [] slot' ↔ slot = slot' := by
  cases slot <;> cases slot' <;> simp [Takes, eq_comm]

/-- A slot takes one bound if it is empty. -/
theorem takes_singleton {c : Capacity} : Takes slot [c] slot' ↔ slot = none ∧ slot' = some c := by
  cases slot <;> cases slot' <;> simp [Takes]

/-- A slot takes bounds one after the other. -/
theorem takes_append :
    Takes slot (bounds ++ rest) slot' ↔
      ∃ between, Takes slot bounds between ∧ Takes between rest slot' := by
  constructor
  · intro h
    -- What stands first fills the slot, and then nothing is left to take.
    cases slot with
    | some c => cases slot' <;> simp_all [Takes]
    | none =>
      cases bounds with
      | nil => exact ⟨none, rfl, h⟩
      | cons c bounds => cases slot' <;> simp_all [Takes]
  · rintro ⟨between, hbounds, hrest⟩
    rw [Takes, hrest, hbounds, List.append_assoc]

/-! ## Filling a draft -/

/-- A step is taken if the slot of its tier `Takes` its bound. -/
theorem Step.apply_eq_ok :
    step.apply d = .ok d' ↔
      Takes d.heap step.heapBound?.toList d'.heap ∧
        Takes d.offHeap step.offHeapBound?.toList d'.offHeap := by
  obtain ⟨heap, offHeap⟩ := d
  obtain ⟨heap', offHeap'⟩ := d'
  cases step with
  | heap c =>
    cases heap <;>
      simp [apply, Draft.addHeap, heapBound?, offHeapBound?, takes_nil, takes_singleton, eq_comm]
  | offHeap mb =>
    cases offHeap <;>
      simp [apply, Draft.addOffHeap, heapBound?, offHeapBound?, takes_nil, takes_singleton, eq_comm]
  | offHeapCapacity c =>
    cases offHeap <;>
      simp [apply, Draft.addOffHeapCapacity, heapBound?, offHeapBound?, takes_nil, takes_singleton,
        eq_comm]

/-- **Steps are taken** if the slots of the draft take their bounds (`heapBounds`,
`offHeapBounds`). -/
theorem foldlM_apply_eq_ok :
    steps.foldlM Step.apply d = .ok d' ↔
      Takes d.heap (heapBounds steps) d'.heap ∧
        Takes d.offHeap (offHeapBounds steps) d'.offHeap := by
  induction steps generalizing d with
  | nil =>
    obtain ⟨heap, offHeap⟩ := d
    obtain ⟨heap', offHeap'⟩ := d'
    simp [heapBounds, offHeapBounds, takes_nil, pure, Except.pure]
  | cons step steps ih =>
    simp only [List.foldlM_cons, bind_eq_ok, Step.apply_eq_ok, ih, heapBounds_cons,
      offHeapBounds_cons, takes_append]
    constructor
    · rintro ⟨between, ⟨hheap, hoffHeap⟩, hheap', hoffHeap'⟩
      exact ⟨⟨between.heap, hheap, hheap'⟩, between.offHeap, hoffHeap, hoffHeap'⟩
    · rintro ⟨⟨heap, hheap, hheap'⟩, offHeap, hoffHeap, hoffHeap'⟩
      exact ⟨⟨heap, offHeap⟩, ⟨hheap, hoffHeap⟩, hheap', hoffHeap'⟩

/-! ## Building -/

/-- A tier of a plan holds what has been given to it and lets something in. -/
def HoldsNonzero (bounds : List Capacity) (tier : Option Capacity) : Prop :=
  ∀ c, tier = some c ↔ c ∈ bounds ∧ c.Nonzero

/-- `effective` keeps a bound that is `Nonzero`. -/
theorem Draft.effective_eq_some {c : Capacity} :
    effective slot = some c ↔ slot = some c ∧ c.Nonzero := by
  rw [← Capacity.isZero_eq_false]
  cases slot with
  | none => simp [effective]
  | some given =>
    by_cases h : given.isZero = true
    · simp only [effective, h, if_true]
      grind
    · simp only [effective, h]
      grind

/-- What is `effective` of a slot is what a tier holds. -/
theorem holdsNonzero_effective (slot : Option Capacity) :
    HoldsNonzero slot.toList (Draft.effective slot) := by
  intro c
  rw [Draft.effective_eq_some, Option.mem_toList]

/-- One bound at most is held for given `bounds`. -/
theorem HoldsNonzero.unique {tier tier' : Option Capacity} (h : HoldsNonzero bounds tier)
    (h' : HoldsNonzero bounds tier') : tier = tier' :=
  Option.ext fun c => (h c).trans (h' c).symm

/-- `build` succeeds if one of the bounds lets something in. -/
theorem Draft.build_cases (d : Draft) :
    (d.build = .ok ⟨effective d.heap, effective d.offHeap⟩ ∧
        ∃ c ∈ d.heap.toList ++ d.offHeap.toList, c.Nonzero) ∨
      (∃ e, d.build = .error e) ∧
        ¬∃ c ∈ d.heap.toList ++ d.offHeap.toList, c.Nonzero := by
  have hfound {slot : Option Capacity} {c : Capacity} (h : effective slot = some c) :
      c ∈ slot.toList ∧ c.Nonzero := by
    obtain ⟨hslot, hzero⟩ := effective_eq_some.mp h
    exact ⟨Option.mem_toList.mpr hslot, hzero⟩
  unfold build
  cases hheap : effective d.heap with
  | some c =>
    obtain ⟨hc, hzero⟩ := hfound hheap
    exact .inl ⟨rfl, c, List.mem_append_left _ hc, hzero⟩
  | none =>
    cases hoffHeap : effective d.offHeap with
    | some c =>
      obtain ⟨hc, hzero⟩ := hfound hoffHeap
      exact .inl ⟨rfl, c, List.mem_append_right _ hc, hzero⟩
    | none =>
      refine .inr ⟨⟨_, rfl⟩, ?_⟩
      rintro ⟨c, hc, hzero⟩
      rcases List.mem_append.mp hc with hc | hc
      · simp [effective_eq_some.mpr ⟨Option.mem_toList.mp hc, hzero⟩] at hheap
      · simp [effective_eq_some.mpr ⟨Option.mem_toList.mp hc, hzero⟩] at hoffHeap

/-- **A draft is built** if one of its bounds lets something in, and then the plan holds
those that do. -/
theorem Draft.build_eq_ok :
    d.build = .ok plan ↔
      (∃ c ∈ d.heap.toList ++ d.offHeap.toList, c.Nonzero) ∧
        HoldsNonzero d.heap.toList plan.heap ∧ HoldsNonzero d.offHeap.toList plan.offHeap := by
  rcases d.build_cases with ⟨hbuild, hsome⟩ | ⟨⟨e, hbuild⟩, hnone⟩
  · rw [hbuild]
    constructor
    · intro h
      obtain rfl := Except.ok.inj h
      exact ⟨hsome, holdsNonzero_effective d.heap, holdsNonzero_effective d.offHeap⟩
    · rintro ⟨-, hheap, hoffHeap⟩
      rw [(holdsNonzero_effective d.heap).unique hheap,
        (holdsNonzero_effective d.offHeap).unique hoffHeap]
  · rw [hbuild]
    exact ⟨nofun, fun h => absurd h.1 hnone⟩

/-! ## Plans -/

/-- What a plan has to do with the bounds that are given to the two tiers: each tier is
given one at most, and the plan holds those that let something in, of which there is one. -/
structure PlansFor (heap offHeap : List Capacity) (plan : CapacityPlan) : Prop where
  heap_once : heap.length ≤ 1
  offHeap_once : offHeap.length ≤ 1
  exists_nonzero : ∃ c ∈ heap ++ offHeap, c.Nonzero
  heap : HoldsNonzero heap plan.heap
  offHeap : HoldsNonzero offHeap plan.offHeap

/-- A list of one element at most is its `head?`. -/
theorem toList_head? (h : bounds.length ≤ 1) : bounds.head?.toList = bounds := by
  match bounds with
  | [] | [_] => rfl

/-- There is a plan for bounds that are given once at most and are not all zero. -/
theorem exists_plansFor {heap offHeap : List Capacity} :
    (∃ plan, PlansFor heap offHeap plan) ↔
      heap.length ≤ 1 ∧ offHeap.length ≤ 1 ∧ ∃ c ∈ heap ++ offHeap, c.Nonzero := by
  constructor
  · rintro ⟨plan, h⟩
    exact ⟨h.heap_once, h.offHeap_once, h.exists_nonzero⟩
  · rintro ⟨hheap, hoffHeap, hsome⟩
    refine ⟨⟨Draft.effective heap.head?, Draft.effective offHeap.head?⟩, hheap, hoffHeap, hsome,
      ?_, ?_⟩
    · simpa only [toList_head? hheap] using holdsNonzero_effective heap.head?
    · simpa only [toList_head? hoffHeap] using holdsNonzero_effective offHeap.head?

/-- **Steps make a plan** exactly if it is the plan for the bounds that they give. -/
theorem ofSteps_eq_ok :
    ofSteps steps = .ok plan ↔ PlansFor (heapBounds steps) (offHeapBounds steps) plan := by
  constructor
  · intro h
    obtain ⟨draft, hdraft, hbuild⟩ := bind_eq_ok.mp h
    obtain ⟨hheap, hoffHeap⟩ := foldlM_apply_eq_ok.mp hdraft
    change draft.heap.toList = heapBounds steps at hheap
    change draft.offHeap.toList = offHeapBounds steps at hoffHeap
    obtain ⟨hsome, hholds, hholds'⟩ := Draft.build_eq_ok.mp hbuild
    rw [← hheap, ← hoffHeap]
    exact ⟨Option.length_toList_le, Option.length_toList_le, hsome, hholds, hholds'⟩
  · intro h
    have hheap := toList_head? h.heap_once
    have hoffHeap := toList_head? h.offHeap_once
    refine bind_eq_ok.mpr ⟨⟨(heapBounds steps).head?, (offHeapBounds steps).head?⟩, ?_, ?_⟩
    · exact foldlM_apply_eq_ok.mpr ⟨hheap, hoffHeap⟩
    · rw [Draft.build_eq_ok, hheap, hoffHeap]
      exact ⟨h.exists_nonzero, h.heap, h.offHeap⟩

/-- `PlansFor` does not depend on the order of bounds. -/
theorem PlansFor.perm {heap heap' offHeap offHeap' : List Capacity} (h : PlansFor heap offHeap plan)
    (hheap : heap.Perm heap') (hoffHeap : offHeap.Perm offHeap') :
    PlansFor heap' offHeap' plan where
  heap_once := hheap.length_eq ▸ h.heap_once
  offHeap_once := hoffHeap.length_eq ▸ h.offHeap_once
  exists_nonzero := by
    obtain ⟨c, hc, hzero⟩ := h.exists_nonzero
    exact ⟨c, (hheap.append hoffHeap).mem_iff.mp hc, hzero⟩
  heap c := by rw [h.heap c, hheap.mem_iff]
  offHeap c := by rw [h.offHeap c, hoffHeap.mem_iff]

/-- The order of steps is of no account. -/
theorem ofSteps_perm (h : steps.Perm steps') :
    ofSteps steps = .ok plan ↔ ofSteps steps' = .ok plan := by
  simp only [ofSteps_eq_ok]
  exact ⟨fun hplan => hplan.perm (h.filterMap _) (h.filterMap _),
    fun hplan => hplan.perm (h.symm.filterMap _) (h.symm.filterMap _)⟩

/-! ## Sizes -/

/-- The steps that give the nonzero ones of three sizes. -/
def sizeSteps (heapMb heapEntries offHeapMb : UInt64) : List Step :=
  ([(heapMb, .heap (.megabytes heapMb)), (heapEntries, .heap (.entries heapEntries)),
    (offHeapMb, .offHeap offHeapMb)] : List (UInt64 × Step)).filterMap fun (size, step) =>
      if size = 0 then none else some step

variable {heapMb heapEntries offHeapMb : UInt64}

/-- The sizes give the heap tier those of its two that are not zero. -/
theorem heapBounds_sizeSteps : heapBounds (sizeSteps heapMb heapEntries offHeapMb) =
    (if heapMb = 0 then [] else [.megabytes heapMb])
      ++ (if heapEntries = 0 then [] else [.entries heapEntries]) := by
  unfold heapBounds sizeSteps
  by_cases hmb : heapMb = 0 <;> by_cases hentries : heapEntries = 0 <;>
    by_cases hoffHeap : offHeapMb = 0 <;> simp [hmb, hentries, hoffHeap, Step.heapBound?]

/-- They give the off-heap tier its own, if that is not zero. -/
theorem offHeapBounds_sizeSteps : offHeapBounds (sizeSteps heapMb heapEntries offHeapMb) =
    if offHeapMb = 0 then [] else [.megabytes offHeapMb] := by
  unfold offHeapBounds sizeSteps
  by_cases hmb : heapMb = 0 <;> by_cases hentries : heapEntries = 0 <;>
    by_cases hoffHeap : offHeapMb = 0 <;>
      simp [hmb, hentries, hoffHeap, List.filterMap_cons, Step.offHeapBound?]

/-- Three sizes make the plan that the steps of `sizeSteps` make. -/
theorem ofSizes_eq_ok :
    ofSizes heapMb heapEntries offHeapMb = .ok plan ↔
      ofSteps (sizeSteps heapMb heapEntries offHeapMb) = .ok plan := by
  unfold ofSizes
  split
  · next hzero =>
    obtain ⟨rfl, rfl, rfl⟩ := hzero
    exact ⟨nofun, nofun⟩
  · have hsteps : sizeSteps heapMb heapEntries offHeapMb =
        (if heapMb = 0 then [] else [Step.heap (.megabytes heapMb)])
          ++ (if heapEntries = 0 then [] else [Step.heap (.entries heapEntries)])
          ++ (if offHeapMb = 0 then [] else [Step.offHeap offHeapMb]) := by
      unfold sizeSteps
      split_ifs <;> simp [*]
    rw [hsteps]

/-- Sizes make a plan unless all are zero or the heap tier has two of them. -/
theorem exists_ofSizes_eq_ok :
    (∃ plan, ofSizes heapMb heapEntries offHeapMb = .ok plan) ↔
      ¬(heapMb = 0 ∧ heapEntries = 0 ∧ offHeapMb = 0) ∧ ¬(heapMb ≠ 0 ∧ heapEntries ≠ 0) := by
  simp only [ofSizes_eq_ok, ofSteps_eq_ok, exists_plansFor, heapBounds_sizeSteps,
    offHeapBounds_sizeSteps]
  by_cases hmb : heapMb = 0 <;> by_cases hentries : heapEntries = 0 <;>
    by_cases hoffHeap : offHeapMb = 0 <;>
      simp [hmb, hentries, hoffHeap, Capacity.nonzero_entries, Capacity.nonzero_megabytes]

/-- **Capacity plans.** A sequence of steps, however long, makes a plan exactly if it gives
the heap tier one bound at most, the off-heap tier one bound at most by either of its two
steps, and some bound that lets something in; the plan holds those bounds and no others.
Megabytes are bytes up to the largest size. Three sizes make a plan exactly if they are not
all zero and the heap tier has no two of them, and it is the plan that the steps of the
nonzero ones make, in whatever order they are taken. -/
theorem plan_of_steps :
    (∀ mb : UInt64, ∃ n : UInt64, Capacity.megabytes mb = .bytes n ∧
        n.toNat = min (mb.toNat * 2 ^ 20) (2 ^ 64 - 1)) ∧
      (∀ steps, (∃ plan, ofSteps steps = .ok plan) ↔
        (heapBounds steps).length ≤ 1 ∧ (offHeapBounds steps).length ≤ 1 ∧
          ∃ c ∈ heapBounds steps ++ offHeapBounds steps, c.Nonzero) ∧
      (∀ steps plan, ofSteps steps = .ok plan →
        HoldsNonzero (heapBounds steps) plan.heap ∧
          HoldsNonzero (offHeapBounds steps) plan.offHeap) ∧
      ∀ heapMb heapEntries offHeapMb,
        ((∃ plan, ofSizes heapMb heapEntries offHeapMb = .ok plan) ↔
          ¬(heapMb = 0 ∧ heapEntries = 0 ∧ offHeapMb = 0) ∧ ¬(heapMb ≠ 0 ∧ heapEntries ≠ 0)) ∧
        ∀ steps plan, steps.Perm (sizeSteps heapMb heapEntries offHeapMb) →
          (ofSizes heapMb heapEntries offHeapMb = .ok plan ↔ ofSteps steps = .ok plan) := by
  refine ⟨Capacity.megabytes_eq, fun steps => ?_, fun steps plan h => ?_,
    fun heapMb heapEntries offHeapMb => ⟨exists_ofSizes_eq_ok, fun steps plan hperm => ?_⟩⟩
  · simp only [ofSteps_eq_ok, exists_plansFor]
  · have hplan := ofSteps_eq_ok.mp h
    exact ⟨hplan.heap, hplan.offHeap⟩
  · rw [ofSizes_eq_ok, ofSteps_perm hperm]

/-- A heap bound of zero is not held. It has been given, though, and so no other is taken. -/
theorem plan_of_steps_zero :
    let steps : List Step := [.heap (.entries 0), .offHeap 1]
    let plan : CapacityPlan := ⟨none, some (.bytes 1048576)⟩
    ofSteps steps = .ok plan ∧ HoldsNonzero (heapBounds steps) plan.heap ∧
      HoldsNonzero (offHeapBounds steps) plan.offHeap ∧
      ¬∃ plan, ofSteps (.heap (.entries 5) :: steps) = .ok plan := by
  intro steps plan
  obtain ⟨-, hmade, hholds, -⟩ := plan_of_steps
  have hplan : ofSteps steps = .ok plan := by decide +kernel
  obtain ⟨hheap, hoffHeap⟩ := hholds steps plan hplan
  refine ⟨hplan, hheap, hoffHeap, fun htwice => ?_⟩
  have honce := ((hmade _).mp htwice).1
  contradiction

end CapacityPlan

end CacheService
