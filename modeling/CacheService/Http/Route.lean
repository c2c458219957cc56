import CacheService.Http.Target

/-!
# CacheService.Http.Route

What the paths of the service name, and the methods that each takes. A key is
one segment of a path; it may hold any text, since it is escaped there.

Main statement: `route?_get` (a key in a path is found again).
-/

namespace CacheService.Http

/-- What a path names. A key stands as the segment that it has in the path. -/
inductive Route
  /-- Where values are written. -/
  | entries
  /-- Where the value under a key is read. -/
  | entry (segment : List Char)
  /-- Where a key is removed. -/
  | removal (segment : List Char)
  /-- Where everything is removed. -/
  | everything
  | stats
  | health
  deriving DecidableEq, Repr

namespace Route

/-- The methods of a route. What may be read may also be asked for without its
body. -/
def methods : Route → List String
  | .entries => ["PUT"]
  | .entry _ | .stats | .health => ["GET", "HEAD"]
  | .removal _ | .everything => ["DELETE"]

/-- The methods in the form of a header. -/
def allow (r : Route) : String := ",".intercalate r.methods

end Route

/-- The segment that is all of a text, if it is one. -/
def segment? (cs : List Char) : Option (List Char) :=
  if cs.isEmpty || cs.contains '/' then none else some cs

/-- What a path names, if it names anything. Letters count as they are written,
and so does a slash at the end. -/
def route? (path : List Char) : Option Route :=
  match path with
  | ['/', 's', 'e', 't'] => some .entries
  | ['/', 'c', 'l', 'e', 'a', 'r'] => some .everything
  | ['/', 's', 't', 'a', 't', 's'] => some .stats
  | ['/', 'h', 'e', 'a', 'l', 't', 'h'] => some .health
  | '/' :: 'g' :: 'e' :: 't' :: '/' :: rest => (segment? rest).map .entry
  | '/' :: 'd' :: 'e' :: 'l' :: '/' :: rest => (segment? rest).map .removal
  | _ => none

/-- A key in a path is found again. -/
theorem route?_get {segment : List Char} (h : segment ≠ []) (hs : '/' ∉ segment) :
    route? ("/get/".toList ++ segment) = some (.entry segment) := by
  have : segment? segment = some segment := by simp_all [segment?]
  simpa [route?] using this

end CacheService.Http
