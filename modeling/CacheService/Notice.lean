/-!
# CacheService.Notice

What the cache tells its operator: warnings and errors with a message, some
fields and, for a value that could not be read, the span it was read in.
-/

namespace CacheService

inductive Severity
  | warn
  | error
  deriving DecidableEq, Repr

/-- A named stretch of work with fields of its own. -/
structure Scope where
  name : String
  fields : List (String × String)
  deriving DecidableEq, Repr

/-- One line for the operator. -/
structure Notice where
  severity : Severity
  message : String
  fields : List (String × String) := []
  scope : Option Scope := none
  deriving DecidableEq, Repr

namespace Notice

def warn (message : String) : Notice := { severity := .warn, message }

def error (message : String) : Notice := { severity := .error, message }

end Notice

end CacheService
