import Mathlib.Data.List.Forall2

/-!
# CacheService.Proofs.Outcome

What the success of a step says about the steps that it is made of. One lemma for each
way of putting steps together in `Except`: `bind_eq_ok` and `bind_eq_error` for one step
after another, `map_eq_ok` for a step whose outcome is changed, and `mapM_eq_ok` and
`mapM_eq_error` for a list of them.
-/

namespace CacheService

variable {ε α β : Type}

/-- Two steps succeed if the first does, and the second on what comes of it. -/
theorem bind_eq_ok {x : Except ε α} {f : α → Except ε β} {b : β} :
    x >>= f = .ok b ↔ ∃ a, x = .ok a ∧ f a = .ok b := by
  cases x with
  | error e => exact ⟨nofun, nofun⟩
  | ok a => exact ⟨fun h => ⟨a, rfl, h⟩, fun ⟨_, ha, h⟩ => Except.ok.inj ha ▸ h⟩

/-- They fail where one of them does. -/
theorem bind_eq_error {x : Except ε α} {f : α → Except ε β} {e : ε} :
    x >>= f = .error e ↔ x = .error e ∨ ∃ a, x = .ok a ∧ f a = .error e := by
  cases x with
  | error e' => exact ⟨fun h => .inl (congrArg Except.error (Except.error.inj h)), fun h =>
      h.elim (fun h => congrArg Except.error (Except.error.inj h)) fun ⟨_, ha, _⟩ => nomatch ha⟩
  | ok a => exact ⟨fun h => .inr ⟨a, rfl, h⟩, fun h =>
      h.elim nofun fun ⟨_, ha, h⟩ => Except.ok.inj ha ▸ h⟩

/-- A step whose outcome is changed succeeds if the step does. -/
theorem map_eq_ok {x : Except ε α} {f : α → β} {b : β} :
    x.map f = .ok b ↔ ∃ a, x = .ok a ∧ f a = b := by
  cases x with
  | error e => exact ⟨nofun, nofun⟩
  | ok a =>
      exact ⟨fun h => ⟨a, rfl, Except.ok.inj h⟩,
        fun ⟨_, ha, h⟩ => by rw [Except.ok.inj ha, ← h]; rfl⟩

/-- It does not succeed with what `f` never makes. -/
theorem map_ne_ok {x : Except ε α} {f : α → β} {b : β} (h : ∀ a, f a ≠ b) : x.map f ≠ .ok b := by
  intro hmap
  obtain ⟨a, -, ha⟩ := map_eq_ok.mp hmap
  exact h a ha

/-- `toOption` keeps the outcome of a success. -/
theorem toOption_eq_some {x : Except ε α} {a : α} : x.toOption = some a ↔ x = .ok a := by
  cases x with
  | error e => exact ⟨nofun, nofun⟩
  | ok b =>
      exact ⟨fun h => congrArg Except.ok (Option.some.inj h),
        fun h => congrArg some (Except.ok.inj h)⟩

/-- `mapM` succeeds if each step of the list does. -/
theorem mapM_eq_ok {f : α → Except ε β} {xs : List α} {ys : List β} :
    xs.mapM f = .ok ys ↔ List.Forall₂ (fun x y => f x = .ok y) xs ys := by
  induction xs generalizing ys with
  | nil =>
      rw [List.mapM_nil, List.forall₂_nil_left_iff]
      exact ⟨fun h => (Except.ok.inj h).symm, fun h => h ▸ rfl⟩
  | cons x xs ih =>
      simp only [List.mapM_cons, bind_eq_ok, List.forall₂_cons_left_iff, ih]
      constructor
      · rintro ⟨y, hy, ys', hys', h⟩
        exact ⟨y, ys', hy, hys', (Except.ok.inj h).symm⟩
      · rintro ⟨y, ys', hy, hys', rfl⟩
        exact ⟨y, hy, ys', hys', rfl⟩

/-- Elements of a list have their counterparts in a related one. -/
theorem exists_of_forall₂ {R : α → β → Prop} {xs : List α} {ys : List β} (h : List.Forall₂ R xs ys)
    {x : α} (hx : x ∈ xs) : ∃ y ∈ ys, R x y := by
  induction h with
  | nil => exact absurd hx List.not_mem_nil
  | cons hxy _ ih =>
      rcases List.mem_cons.mp hx with rfl | hx
      · exact ⟨_, List.mem_cons_self, hxy⟩
      · obtain ⟨y, hy, hrel⟩ := ih hx
        exact ⟨y, List.mem_cons_of_mem _ hy, hrel⟩

/-- `mapM` fails with the error of one of the steps. -/
theorem mapM_eq_error {f : α → Except ε β} {xs : List α} {e : ε} (h : xs.mapM f = .error e) :
    ∃ x ∈ xs, f x = .error e := by
  induction xs with
  | nil => contradiction
  | cons x xs ih =>
      rw [List.mapM_cons] at h
      rcases bind_eq_error.mp h with hx | ⟨y, -, h⟩
      · exact ⟨x, List.mem_cons_self, hx⟩
      · rcases bind_eq_error.mp h with hxs | ⟨ys, -, h⟩
        · obtain ⟨x', hx', hfails⟩ := ih hxs
          exact ⟨x', List.mem_cons_of_mem _ hx', hfails⟩
        · contradiction

end CacheService
