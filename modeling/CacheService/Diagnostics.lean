/-!
# CacheService.Diagnostics

The diagnostic context of a unit of work: named values such as a request id.
Contexts nest, and only the innermost one is seen.
-/

namespace CacheService

/-- The contexts around a unit of work, the innermost first. -/
structure Diagnostics where
  scopes : List (List (String × String)) := []

namespace Diagnostics

/-- Outside any context. -/
def none : Diagnostics := {}

/-- Inside one more context. -/
def enter (d : Diagnostics) (values : List (String × String)) : Diagnostics :=
  ⟨values :: d.scopes⟩

/-- Outside the innermost context. -/
def leave (d : Diagnostics) : Diagnostics := ⟨d.scopes.tail⟩

/-- The value of a name in the innermost context. -/
def current? (d : Diagnostics) (name : String) : Option String :=
  match d.scopes with
  | [] => Option.none
  | values :: _ => values.lookup name

/-- A context leaves no trace behind it. -/
@[simp] theorem leave_enter (d : Diagnostics) (values : List (String × String)) :
    (d.enter values).leave = d := rfl

/-- What several names stand for before the first of some nested contexts,
inside each of them, and after leaving each of them again. -/
def tour (names : List String) (d : Diagnostics) :
    List (List (String × String)) → List (List (Option String))
  | [] => [names.map d.current?]
  | values :: rest =>
    let here := names.map d.current?
    here :: (tour names (d.enter values) rest ++ [here])

/-- The way out of nested contexts shows what the way in has shown, backwards. -/
theorem reverse_tour (names : List String) (d : Diagnostics)
    (scopes : List (List (String × String))) :
    (d.tour names scopes).reverse = d.tour names scopes := by
  induction scopes generalizing d with
  | nil => rfl
  | cons values rest ih => simp [tour, ih]

end Diagnostics

end CacheService
