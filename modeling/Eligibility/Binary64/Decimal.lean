import Eligibility.Binary64.Basic
/-!
# Decimal numerals

A `Decimal` is a natural number times a power of ten. `Binary64.ofDecimal` is the nearest double,
and `Binary64.read?` reads the written form of a number: digits with an optional point and an
optional exponent, or the name of a value that is not finite.
-/

namespace Eligibility

/-- The magnitude `digits * 10 ^ exponent`. -/
structure Decimal where
  digits : Nat
  exponent : Int
  deriving DecidableEq, Repr

namespace Decimal

/-- The value of some decimal digits. -/
def valueOfDigits (cs : List Char) : Nat :=
  Nat.ofDigitChars 10 cs 0

/-- The magnitude written by the digits before and after a point, scaled by a power of ten. -/
def ofParts (whole fraction : List Char) (scale : Int) : Decimal :=
  ⟨valueOfDigits (whole ++ fraction), scale - fraction.length⟩

/-- The rank nearest to a magnitude. Outside the powers of ten that a double can hold the answer
needs no arithmetic: from `10 ^ 400` on it is infinite, and up to `10 ^ -400` it is zero. -/
def rank (d : Decimal) : Nat :=
  if d.digits = 0 then 0
  else if 400 ≤ d.exponent then Binary64.infinityRank
  else if d.digits.log2 + 1 + d.exponent ≤ -400 then 0
  else if 0 ≤ d.exponent then
    Binary64.rankOfRatio (d.digits * Nat.pow 10 d.exponent.toNat * Binary64.unitsPerOne) 1
  else Binary64.rankOfRatio (d.digits * Binary64.unitsPerOne) (Nat.pow 10 (-d.exponent).toNat)

theorem rank_le (d : Decimal) : d.rank ≤ Binary64.infinityRank := by
  unfold rank
  split
  · exact Nat.zero_le _
  split
  · exact Nat.le_refl _
  split
  · exact Nat.zero_le _
  split <;> exact Binary64.rankOfRatio_le ..

end Decimal

namespace Binary64

/-- The double nearest to a magnitude, with a sign. -/
def ofDecimal (negative : Bool) (d : Decimal) : Binary64 :=
  ⟨negative, d.rank, Nat.lt_of_le_of_lt d.rank_le infinityRank_lt⟩

/-! ## Reading -/

/-- A sign in front of a text, `+` or `-` or none, and the rest. -/
def readSign : List Char → Bool × List Char
  | '-' :: rest => (true, rest)
  | '+' :: rest => (false, rest)
  | cs => (false, cs)

/-- The exponent after its letter: an optional sign and at least one digit. -/
def readExponent? (cs : List Char) : Option Int :=
  let (negative, digits) := readSign cs
  if digits.isEmpty || !digits.all Char.isDigit then none
  else
    let magnitude : Int := Decimal.valueOfDigits digits
    some (if negative then -magnitude else magnitude)

/-- What follows the digits: nothing, or a letter `e` and an exponent. -/
def readScale? : List Char → Option Int
  | [] => some 0
  | c :: rest => if c = 'e' || c = 'E' then readExponent? rest else none

/-- A magnitude: digits, of which a point may precede, follow or divide some, then an optional
exponent. -/
def readMagnitude? (cs : List Char) : Option Decimal :=
  let whole := cs.takeWhile Char.isDigit
  let afterWhole := cs.dropWhile Char.isDigit
  let (fraction, rest) :=
    match afterWhole with
    | '.' :: afterPoint => (afterPoint.takeWhile Char.isDigit, afterPoint.dropWhile Char.isDigit)
    | _ => ([], afterWhole)
  if whole.isEmpty && fraction.isEmpty then none
  else (readScale? rest).map (Decimal.ofParts whole fraction)

/-- The rank named by a word, in any letter case. -/
def rankOfName? (cs : List Char) : Option Nat :=
  let name := String.ofList (cs.map Char.toLower)
  if name = "inf" || name = "infinity" then some infinityRank
  else if name = "nan" then some nan.rank
  else none

/-- The number that a text writes: a magnitude or a name, after an optional sign. -/
def read? (cs : List Char) : Option Binary64 :=
  let (negative, magnitude) := readSign cs
  match readMagnitude? magnitude with
  | some d => some (ofDecimal negative d)
  | none =>
    match rankOfName? magnitude with
    | some rank => if h : rank < signBit then some ⟨negative, rank, h⟩ else none
    | none => none

/-- A text as a number of a comparison: a finite one, with blanks around it already removed. -/
def readFinite? (cs : List Char) : Option Binary64 :=
  (read? cs).filter isFinite

end Binary64

end Eligibility
