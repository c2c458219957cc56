import CacheService.Entry
import CacheService.Notice

/-!
# CacheService.World

What the cache finds around it (`World`): the wall clock, which may be set back and
forth, a timer that only moves on, a network, and an operator who is told of warnings
and errors (`Notice`).
-/

namespace CacheService

/-- The surroundings of a cache, with a network in a state of type `σ`. -/
structure World (σ : Type) where
  /-- The wall clock in Unix milliseconds. -/
  clock : Int
  /-- The timer in milliseconds. -/
  timer : Nat := 0
  network : σ
  /-- What the operator has been told, in order. -/
  notices : List Notice := []

namespace World

variable {σ : Type}

/-- What the wall clock reads. -/
def now (w : World σ) : UInt64 := clockReading w.clock

/-- The second of the wall clock. -/
def unixSeconds (w : World σ) : Int := w.clock.fdiv 1000

/-- Moves the wall clock, and the timer by as much if that is forward. -/
def advance (w : World σ) (millis : Int) : World σ :=
  { w with clock := w.clock + millis, timer := w.timer + millis.toNat }

/-- Tells the operator. -/
def tell (w : World σ) (notices : List Notice) : World σ :=
  { w with notices := w.notices ++ notices }

end World

end CacheService
