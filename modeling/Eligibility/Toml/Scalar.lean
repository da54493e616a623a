import Eligibility.Settings.Value
import Eligibility.Timestamp.Calendar
/-!
# Scalars of TOML

The values of TOML that are written without quotes: truth values, integers in four bases, floating
point numbers, dates and times. `Toml.scalar?` takes a whole word. A date or a time becomes the text
of its canonical form.
-/

namespace Eligibility.Toml

/-! ## Digits -/

/-- Digits without the underscores, each of which must stand between two digits. -/
def withoutUnderscores? (isDigit : Char → Bool) : List Char → Option (List Char)
  | [] => none
  | [c] => if isDigit c then some [c] else none
  | c :: '_' :: rest =>
    if isDigit c then (c :: ·) <$> withoutUnderscores? isDigit rest else none
  | c :: rest => if isDigit c then (c :: ·) <$> withoutUnderscores? isDigit rest else none

/-- The decimal digits of a text with underscores. -/
def decimalDigits? (cs : List Char) : Option (List Char) :=
  withoutUnderscores? Char.isDigit cs

/-- The decimal digits of a whole part, which has no leading zero. -/
def wholeDigits? (cs : List Char) : Option (List Char) := do
  let digits ← decimalDigits? cs
  if digits.head? = some '0' ∧ digits.length ≠ 1 then none else some digits

/-- The value of a digit of a base up to sixteen. -/
def digitValue (c : Char) : Nat :=
  if c.isDigit then c.toNat - '0'.toNat else c.toLower.toNat - 'a'.toNat + 10

/-- The integer that digits of a base write. -/
def integerOfBase? (base : Nat) (cs : List Char) : Option Int := do
  let isDigit (c : Char) : Bool :=
    (c.isDigit || ('a' ≤ c.toLower && c.toLower ≤ 'f')) && digitValue c < base
  let digits ← withoutUnderscores? isDigit cs
  return digits.foldl (fun n c => n * base + digitValue c) 0

/-! ## Numbers -/

/-- A sign in front of a text, if there is one, and the rest. -/
def splitSign : List Char → Option Char × List Char
  | '+' :: rest => (some '+', rest)
  | '-' :: rest => (some '-', rest)
  | cs => (none, cs)

/-- The integer that a word is. Only decimal ones may have a sign. -/
def integer? (cs : List Char) : Option Int :=
  match cs with
  | '0' :: 'x' :: rest => integerOfBase? 16 rest >>= Setting.checkInteger?
  | '0' :: 'o' :: rest => integerOfBase? 8 rest >>= Setting.checkInteger?
  | '0' :: 'b' :: rest => integerOfBase? 2 rest >>= Setting.checkInteger?
  | _ => do
    let (sign, rest) := splitSign cs
    let digits ← wholeDigits? rest
    let magnitude : Int := Decimal.valueOfDigits digits
    Setting.checkInteger? (if sign = some '-' then -magnitude else magnitude)

/-- The power of ten after the digits of a number: none, or a letter `e`, a sign and digits. -/
def exponent? : List Char → Option Int
  | [] => some 0
  | c :: rest =>
    if c = 'e' ∨ c = 'E' then do
      let (sign, digits) := splitSign rest
      let magnitude : Int := Decimal.valueOfDigits (← decimalDigits? digits)
      return if sign = some '-' then -magnitude else magnitude
    else none

/-- The magnitude that a word is as a floating point number: digits, then a fraction or an exponent
or both. -/
def magnitude? (cs : List Char) : Option Decimal := do
  let isPart (c : Char) : Bool := c.isDigit || c == '_'
  let whole ← wholeDigits? (cs.takeWhile isPart)
  match cs.dropWhile isPart with
  | [] => none
  | '.' :: rest =>
    let fraction ← decimalDigits? (rest.takeWhile isPart)
    return .ofParts whole fraction (← exponent? (rest.dropWhile isPart))
  | rest => return .ofParts whole [] (← exponent? rest)

/-- The floating point number that a word is. -/
def real? (cs : List Char) : Option Binary64 :=
  let (sign, rest) := splitSign cs
  let negative := sign == some '-'
  if rest = "inf".toList then some (.infinity negative)
  else if rest = "nan".toList then some { Binary64.nan with negative }
  else do
    let x := Binary64.ofDecimal negative (← magnitude? rest)
    if x.isFinite then some x else none

/-! ## Dates and times -/

/-- The number of a fixed count of digits at the front of a text, and the rest. -/
def fixedDigits? (count : Nat) (cs : List Char) : Option (Nat × List Char) :=
  let digits := cs.take count
  if digits.length = count ∧ digits.all Char.isDigit then
    some (Decimal.valueOfDigits digits, cs.drop count)
  else none

/-- The text after a character. -/
def after? (c : Char) : List Char → Option (List Char)
  | d :: rest => if c = d then some rest else none
  | [] => none

/-- A date at the front of a text, which must be in the calendar, and the rest. -/
def date? (cs : List Char) : Option (List Char) := do
  let (year, cs) ← fixedDigits? 4 cs
  let (month, cs) ← after? '-' cs >>= fixedDigits? 2
  let (day, cs) ← after? '-' cs >>= fixedDigits? 2
  let date : Date := ⟨year, month, day⟩
  if date.isValid then some cs else none

/-- The digits of a fraction of a second, cut after nine of them and freed of zeros at the end. One
digit is left if all are zeros. -/
def canonicalFraction (digits : List Char) : List Char :=
  let kept := ((digits.take 9).reverse.dropWhile (· == '0')).reverse
  if kept.isEmpty then ['0'] else kept

/-- The seconds of a time of day at the front of a text, which may have a fraction: their canonical
form and the rest. -/
def seconds? (cs : List Char) : Option (List Char × List Char) := do
  let (second, rest) ← fixedDigits? 2 cs
  if 60 < second then none
  else
    match rest with
    | '.' :: rest =>
      let digits := rest.takeWhile Char.isDigit
      if digits.isEmpty then none
      else some (cs.take 2 ++ '.' :: canonicalFraction digits, rest.dropWhile Char.isDigit)
    | rest => some (cs.take 2, rest)

/-- A time of day at the front of a text, with or without seconds: its canonical form and the
rest. -/
def time? (cs : List Char) : Option (List Char × List Char) := do
  let (hour, rest) ← fixedDigits? 2 cs
  let (minute, rest) ← after? ':' rest >>= fixedDigits? 2
  if 24 ≤ hour ∨ 60 ≤ minute then none
  else
    match rest with
    | ':' :: rest => (seconds? rest).map fun (seconds, rest) => (cs.take 5 ++ ':' :: seconds, rest)
    | rest => some (cs.take 5, rest)

/-- An offset from UTC that is a whole text, or none: its canonical form, where no offset is below
zero by nothing. -/
def offset? : List Char → Option (List Char)
  | [] => some []
  | [c] => if c = 'Z' ∨ c = 'z' then some ['Z'] else none
  | sign :: rest => do
    let (hours, after) ← fixedDigits? 2 rest
    let (minutes, after) ← after? ':' after >>= fixedDigits? 2
    if (sign = '+' ∨ sign = '-') ∧ hours < 24 ∧ minutes < 60 ∧ after.isEmpty then
      some ((if hours = 0 ∧ minutes = 0 then '+' else sign) :: rest)
    else none

/-- The canonical form of a word that is a date, a time, or both. -/
def dateTime? (cs : List Char) : Option (List Char) :=
  match date? cs with
  | some [] => some cs
  | some (separator :: rest) => do
    if separator = 'T' ∨ separator = 't' ∨ separator = ' ' then
      let (time, rest) ← time? rest
      return cs.take 10 ++ 'T' :: time ++ (← offset? rest)
    else none
  | none => do
    let (time, rest) ← time? cs
    if rest.isEmpty then some time else none

/-- The value that a word without quotes is. -/
def scalar? (cs : List Char) : Option Setting :=
  if cs = "true".toList then some (.bool true)
  else if cs = "false".toList then some (.bool false)
  else
    match integer? cs with
    | some value => some (.integer value)
    | none =>
      match real? cs with
      | some value => some (.real value)
      | none => (dateTime? cs).map fun text => .text (String.ofList text)

end Eligibility.Toml
