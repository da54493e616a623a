import Eligibility.Timestamp.Calendar
/-!
# Points in time

A `Timestamp` counts seconds and nanoseconds from the start of 1970 in UTC. A leap second is the
second before it with nanoseconds from `10 ^ 9` on. `Timestamp.display` writes the time by RFC 3339
in UTC, with as many groups of three fraction digits as it needs.
-/

namespace Eligibility

/-- A point in time. -/
structure Timestamp where
  seconds : Int
  nanos : Nat
  deriving DecidableEq, Repr

namespace Timestamp

/-- Whether a time is not later than another. -/
def le (a b : Timestamp) : Bool :=
  a.seconds < b.seconds || (a.seconds == b.seconds && a.nanos ≤ b.nanos)

/-- The time a number of milliseconds after the start of 1970. -/
def ofMillis (millis : Int) : Timestamp :=
  ⟨millis / 1000, (millis % 1000).toNat * 1000000⟩

/-- The whole milliseconds from the start of 1970 to a time. -/
def toMillis (time : Timestamp) : Int :=
  time.seconds * 1000 + time.nanos / 1000000

/-- The number of seconds of a day. -/
def secondsPerDay : Int := 86400

/-- A numeral with zeros in front up to a width. -/
def padded (width n : Nat) : String :=
  let digits := Nat.repr n
  String.ofList (List.replicate (width - digits.length) '0') ++ digits

/-- A year: four digits, or with a sign outside the years of four digits. -/
def yearText (year : Int) : String :=
  if 0 ≤ year ∧ year ≤ 9999 then padded 4 year.toNat
  else if year < 0 then "-" ++ padded 4 year.natAbs
  else "+" ++ padded 4 year.natAbs

/-- The fraction of a second: nothing, or a point and three, six or nine digits. -/
def fractionText (nanos : Nat) : String :=
  if nanos = 0 then ""
  else if nanos % 1000000 = 0 then "." ++ padded 3 (nanos / 1000000)
  else if nanos % 1000 = 0 then "." ++ padded 6 (nanos / 1000)
  else "." ++ padded 9 nanos

/-- The written form of a time in UTC. -/
def display (time : Timestamp) : String :=
  let date := Date.ofDayNumber (time.seconds / secondsPerDay)
  let secondOfDay := (time.seconds % secondsPerDay).toNat
  let second := secondOfDay % 60 + time.nanos / 1000000000
  yearText date.year ++ "-" ++ padded 2 date.month ++ "-" ++ padded 2 date.day ++ "T" ++
    padded 2 (secondOfDay / 3600) ++ ":" ++ padded 2 (secondOfDay / 60 % 60) ++ ":" ++
    padded 2 second ++ fractionText (time.nanos % 1000000000) ++ "Z"

end Timestamp

end Eligibility
