import Eligibility.Text.Blank
import Eligibility.Timestamp.Basic
/-!
# Reading times

`Timestamp.read?` reads a date, a time and an offset from UTC by RFC 3339, and is more lenient than
it in this: blanks may stand around the separators, numbers may be shorter, a blank may stand for
the `T`, years may have a sign and more digits, and the offset may be `UTC` or lack its colon.
-/

namespace Eligibility.Timestamp

open Text

/-- The text after the blanks in front. -/
def skipBlanks (cs : List Char) : List Char :=
  cs.dropWhile isBlank

/-- A number of one digit up to a maximal count, and the rest. -/
def readDigits? (count : Nat) (cs : List Char) : Option (Nat × List Char) :=
  let digits := (cs.take count).takeWhile Char.isDigit
  if digits.isEmpty then none
  else some (Nat.ofDigitChars 10 digits 0, cs.drop digits.length)

/-- A number after blanks. -/
def readNumber? (count : Nat) (cs : List Char) : Option (Nat × List Char) :=
  readDigits? count (skipBlanks cs)

/-- A year: up to four digits, or any number of them after a sign. -/
def readYear? (cs : List Char) : Option (Int × List Char) :=
  match skipBlanks cs with
  | '-' :: rest => (readDigits? rest.length rest).map fun (year, rest) => (-(year : Int), rest)
  | '+' :: rest => (readDigits? rest.length rest).map fun (year, rest) => ((year : Int), rest)
  | rest => (readDigits? 4 rest).map fun (year, rest) => ((year : Int), rest)

/-- A separator after blanks. -/
def readSeparator? (separator : Char) (cs : List Char) : Option (List Char) :=
  match skipBlanks cs with
  | c :: rest => if c = separator then some rest else none
  | [] => none

/-- A fraction of a second in nanoseconds. Digits after the ninth are dropped. -/
def readFraction? : List Char → Option (Nat × List Char)
  | '.' :: rest =>
    let digits := rest.takeWhile Char.isDigit
    if digits.isEmpty then none
    else
      let kept := digits.take 9
      some (Nat.ofDigitChars 10 kept 0 * Nat.pow 10 (9 - kept.length), rest.dropWhile Char.isDigit)
  | cs => some (0, cs)

/-- The number of two digits. -/
def twoDigits? (a b : Char) : Option Nat :=
  if a.isDigit && b.isDigit then some (Nat.ofDigitChars 10 [a, b] 0) else none

/-- The hours and minutes of an offset, with any colons and blanks between them, in seconds. -/
def readClock? : List Char → Option (Nat × List Char)
  | a :: b :: rest => do
    let hours ← twoDigits? a b
    match rest.dropWhile fun c => c == ':' || isBlank c with
    | c :: d :: rest =>
      let minutes ← twoDigits? c d
      if minutes < 60 then some (hours * 3600 + minutes * 60, rest) else none
    | _ => none
  | _ => none

/-- The offset from UTC in seconds. -/
def readOffset? (cs : List Char) : Option (Int × List Char) :=
  if (cs.take 3).map Char.toUpper = ['U', 'T', 'C'] then some (0, cs.drop 3)
  else
    match cs with
    | [] => none
    | c :: rest =>
      if c = 'Z' ∨ c = 'z' then some (0, rest)
      else if c = '+' then (readClock? rest).map fun (offset, rest) => ((offset : Int), rest)
      else if c = '-' ∨ c = '−' then
        (readClock? rest).map fun (offset, rest) => (-(offset : Int), rest)
      else none

/-- A date, and the rest. -/
def readDate? (cs : List Char) : Option (Date × List Char) := do
  let (year, cs) ← readYear? cs
  let cs ← readSeparator? '-' cs
  let (month, cs) ← readNumber? 2 cs
  let cs ← readSeparator? '-' cs
  let (day, cs) ← readNumber? 2 cs
  let date : Date := ⟨year, month, day⟩
  if date.isValid then some (date, cs) else none

/-- A time of day in seconds and nanoseconds, and the rest. The second may be a leap second. -/
def readTime? (cs : List Char) : Option (Nat × Nat × List Char) := do
  let (hour, cs) ← readNumber? 2 cs
  let cs ← readSeparator? ':' cs
  let (minute, cs) ← readNumber? 2 cs
  let cs ← readSeparator? ':' cs
  let (second, cs) ← readNumber? 2 cs
  let (nanos, cs) ← readFraction? cs
  if hour < 24 ∧ minute < 60 ∧ second ≤ 60 then
    let leap := if second = 60 then 1000000000 else 0
    some (hour * 3600 + minute * 60 + min second 59, nanos + leap, cs)
  else none

/-- The time that a text writes. -/
def read? (text : String) : Option Timestamp := do
  let (date, cs) ← readDate? text.toList
  match cs with
  | [] => none
  | separator :: cs =>
    if separator = 'T' ∨ separator = 't' ∨ separator = ' ' then
      let (second, nanos, cs) ← readTime? cs
      let (offset, cs) ← readOffset? (skipBlanks cs)
      let seconds := date.dayNumber * secondsPerDay + second - offset
      let year := (Date.ofDayNumber (seconds / secondsPerDay)).year
      if (skipBlanks cs).isEmpty ∧ offset.natAbs < 86400 ∧ Date.isSupportedYear year then
        some ⟨seconds, nanos⟩
      else none
    else none

end Eligibility.Timestamp
