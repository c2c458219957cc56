import CacheService.Backend

/-!
# CacheService.Cache.Sweep

The sweep: while a backend is in use, its expired entries are removed at intervals
(`Sweep.tick`, by `Backend.cleanup`). A sweep sleeps for its interval, runs once however
late it wakes, and sleeps again from then on; it ends when the backend refuses it. No
sleep is longer than 30 years (`longestSleep`).
-/

namespace CacheService

/-- A sweep that sleeps until a moment of the timer. -/
structure Sweep where
  /-- Milliseconds between two runs. -/
  interval : Nat
  wakesAt : Nat
  finished : Bool := false
  deriving DecidableEq, Repr

namespace Sweep

/-- The longest sleep: 30 years of 365 days, in milliseconds. -/
def longestSleep : Nat := 30 * 365 * 86400000

/-- Goes to sleep at a moment of the timer. -/
def sleep (s : Sweep) (timer : Nat) : Sweep :=
  { s with wakesAt := timer + min s.interval longestSleep }

/-- A sweep that begins to sleep at a moment of the timer. -/
def start (interval timer : Nat) : Sweep := sleep { interval, wakesAt := timer } timer

/-- Ends the sweep. -/
def abort (s : Sweep) : Sweep := { s with finished := true }

/-- Whether the sweep runs at a moment of the timer. -/
def isDue (s : Sweep) (timer : Nat) : Bool := !s.finished && s.wakesAt ≤ timer

variable {σ : Type} [Remote.Network σ]

/-- Runs the sweep if it is due (`isDue`). A backend that refuses ends it. -/
def tick (s : Sweep) (b : Backend) (w : World σ) : Sweep × Backend × World σ :=
  if s.isDue w.timer then
    match b.cleanup w with
    | (.ok _, b, w) => (s.sleep w.timer, b, w)
    | (.error _, b, w) => (s.abort, b, w)
  else (s, b, w)

/-- Runs the sweep of a backend that may have none. -/
def tick? (s : Option Sweep) (b : Backend) (w : World σ) : Option Sweep × Backend × World σ :=
  match s with
  | none => (none, b, w)
  | some s =>
    let (s, b, w) := s.tick b w
    (some s, b, w)

end Sweep

end CacheService
