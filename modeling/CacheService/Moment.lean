/-!
# CacheService.Moment

Moments as texts: the date and time of a Unix millisecond in UTC, in the form
of RFC 3339. The date is counted in years that begin in March, so that a leap
day is the last day of its year (`dateOfDays`, with `dateOfDays_range`).
-/

namespace CacheService.Moment

/-- A day of the Gregorian calendar. -/
structure Date where
  year : Int
  month : Nat
  day : Nat
  deriving DecidableEq, Repr

/-- Days in 400 years. -/
def daysPerEra : Int := 146097

/-- Days from 1 March of the year 0 to 1 January 1970. -/
def daysToEpoch : Int := 719468

/-- The day that is so many days after 1 January 1970. -/
def dateOfDays (days : Int) : Date :=
  let shifted := days + daysToEpoch
  let era := shifted / daysPerEra
  let dayOfEra := (shifted % daysPerEra).toNat
  let yearOfEra :=
    (dayOfEra - dayOfEra / 1460 + dayOfEra / 36524 - dayOfEra / 146096) / 365
  let dayOfYear := dayOfEra - (365 * yearOfEra + yearOfEra / 4 - yearOfEra / 100)
  let fromMarch := (5 * dayOfYear + 2) / 153
  let month := if fromMarch < 10 then fromMarch + 3 else fromMarch - 9
  { year := era * 400 + yearOfEra + (if month ≤ 2 then 1 else 0)
    month
    day := dayOfYear - (153 * fromMarch + 2) / 5 + 1 }

/-- The years of an era leave no more than the days of a leap year over. -/
theorem dayOfYear_le {dayOfEra yearOfEra : Nat} (hday : dayOfEra < 146097)
    (hyear : (dayOfEra - dayOfEra / 1460 + dayOfEra / 36524 - dayOfEra / 146096) / 365 =
      yearOfEra) :
    dayOfEra - (365 * yearOfEra + yearOfEra / 4 - yearOfEra / 100) ≤ 365 := by
  have hcentury : dayOfEra / 36524 = 0 ∨ dayOfEra / 36524 = 1 ∨ dayOfEra / 36524 = 2 ∨
      dayOfEra / 36524 = 3 ∨ dayOfEra / 36524 = 4 := by omega
  -- The last day of an era is the only one of a fifth century.
  have hlast : dayOfEra / 146096 = 0 ∨ dayOfEra / 146096 = 1 := by omega
  have hcenturies : yearOfEra / 100 = dayOfEra / 36524 - dayOfEra / 146096 := by
    rcases hcentury with h | h | h | h | h <;> rcases hlast with h' | h' <;> omega
  rcases hcentury with h | h | h | h | h <;> rcases hlast with h' | h' <;> omega

/-- `dateOfDays` gives months and days of a calendar. -/
theorem dateOfDays_range (days : Int) :
    (1 ≤ (dateOfDays days).month ∧ (dateOfDays days).month ≤ 12) ∧
      1 ≤ (dateOfDays days).day ∧ (dateOfDays days).day ≤ 31 := by
  have hday : ((days + daysToEpoch) % daysPerEra).toNat < 146097 := by
    simp only [daysPerEra]
    omega
  simp only [dateOfDays]
  generalize ((days + daysToEpoch) % daysPerEra).toNat = dayOfEra at hday ⊢
  generalize hyear :
    (dayOfEra - dayOfEra / 1460 + dayOfEra / 36524 - dayOfEra / 146096) / 365 = yearOfEra
  have hrest := dayOfYear_le hday hyear
  generalize dayOfEra - (365 * yearOfEra + yearOfEra / 4 - yearOfEra / 100) = dayOfYear at hrest ⊢
  split <;> omega

example : dateOfDays 0 = ⟨1970, 1, 1⟩ ∧ dateOfDays (-1) = ⟨1969, 12, 31⟩ := by decide
example : dateOfDays 19782 = ⟨2024, 2, 29⟩ ∧ dateOfDays 19783 = ⟨2024, 3, 1⟩ := by decide
example : dateOfDays 47540 = ⟨2100, 2, 28⟩ ∧ dateOfDays 47541 = ⟨2100, 3, 1⟩ := by decide

/-- A number with zeros in front of it up to a width. -/
def padded (width n : Nat) : String :=
  let digits := toString n
  String.ofList (List.replicate (width - digits.length) '0') ++ digits

/-- A year has four digits, and a sign and five where four do not do. -/
def yearText (year : Int) : String :=
  if 0 ≤ year ∧ year ≤ 9999 then padded 4 year.toNat
  else (if year < 0 then "-" else "+") ++ padded 4 year.natAbs

/-- A Unix millisecond in UTC; milliseconds are written unless they are 0. -/
def text (unixMillis : Int) : String :=
  let seconds := unixMillis / 1000
  let millis := (unixMillis % 1000).toNat
  let date := dateOfDays (seconds / 86400)
  let second := (seconds % 86400).toNat
  yearText date.year ++ "-" ++ padded 2 date.month ++ "-" ++ padded 2 date.day ++ "T"
    ++ padded 2 (second / 3600) ++ ":" ++ padded 2 (second / 60 % 60) ++ ":" ++
      padded 2 (second % 60)
    ++ (if millis = 0 then "" else "." ++ padded 3 millis) ++ "+00:00"

end CacheService.Moment
