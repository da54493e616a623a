/-!
# The calendar

Dates of the Gregorian calendar, extended to all years, and their day numbers: the number of days
since 1970-01-01. `Date.dayNumber` and `Date.ofDayNumber` count years from the first of March, so
that the leap day is the last day of a year.
-/

namespace Eligibility

/-- A day of the calendar. -/
structure Date where
  year : Int
  month : Nat
  day : Nat
  deriving DecidableEq, Repr

namespace Date

/-- Whether a year has a leap day. -/
def isLeapYear (year : Int) : Bool :=
  year % 4 == 0 && (year % 100 != 0 || year % 400 == 0)

/-- The number of days of a month. -/
def daysInMonth (year : Int) (month : Nat) : Nat :=
  if month = 2 then (if isLeapYear year then 29 else 28)
  else if month = 4 ∨ month = 6 ∨ month = 9 ∨ month = 11 then 30
  else 31

/-- The years that are kept track of. -/
def isSupportedYear (year : Int) : Bool :=
  -262143 ≤ year && year ≤ 262142

/-- Whether a date is in the calendar. -/
def isValid (date : Date) : Bool :=
  isSupportedYear date.year && 1 ≤ date.month && date.month ≤ 12 && 1 ≤ date.day &&
    date.day ≤ daysInMonth date.year date.month

/-- The days of the years before a year that starts in March of year zero, leap days included. -/
def daysBefore (year : Int) : Int :=
  365 * year + year / 4 - year / 100 + year / 400

/-- The day number of 0000-03-01. -/
def marchEpoch : Int := -719468

/-- The number of days from 1970-01-01 to a date. -/
def dayNumber (date : Date) : Int :=
  let year := if date.month ≤ 2 then date.year - 1 else date.year
  let month := (date.month + 9) % 12
  daysBefore year + (153 * month + 2) / 5 + date.day - 1 + marchEpoch

/-- The date of a day number. -/
def ofDayNumber (n : Int) : Date :=
  let days := n - marchEpoch
  let era := days / 146097
  let dayOfEra := days - era * 146097
  let yearOfEra :=
    (dayOfEra - dayOfEra / 1460 + dayOfEra / 36524 - dayOfEra / 146096) / 365
  let dayOfYear := (days - daysBefore (era * 400 + yearOfEra)).toNat
  let march := (5 * dayOfYear + 2) / 153
  let month := if march < 10 then march + 3 else march - 9
  { year := era * 400 + yearOfEra + (if month ≤ 2 then 1 else 0)
    month
    day := dayOfYear - (153 * march + 2) / 5 + 1 }

end Date

end Eligibility
