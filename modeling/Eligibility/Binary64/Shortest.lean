import Eligibility.Binary64.Decimal
/-!
# The shortest decimal that reads back

Of the decimals that round to a given double, `shortest` is one with the fewest digits, and among
those the nearest to the double.

Every finite magnitude is a natural number of `10 ^ -1074`, so that its exact decimal expansion is
the numeral of that number. On the grid of the decimals with `n` digits only the two neighbours of
the magnitude can be nearest to it; the first grid of which a neighbour reads back wins, and of two
such neighbours the nearer, the upper one when they are equally near.
-/

namespace Eligibility.Binary64

/-- The magnitude with a finite rank, as a number of `10 ^ -1074`. -/
def exactDigits (rank : Nat) : Nat := unitsOfRank rank * Nat.pow 5 1074

/-- The number of digits of a numeral. -/
def digitCount (n : Nat) : Nat := (Nat.toDigits 10 n).length

/-- The neighbour of the exact expansion `exact`, on the grid of spacing `10 ^ step`, that reads
back as `rank`, if one does. -/
def neighbour? (rank exact step : Nat) : Option Decimal :=
  let spacing := Nat.pow 10 step
  let exponent : Int := (step : Int) - 1074
  let lower : Decimal := ⟨exact / spacing, exponent⟩
  let upper : Decimal := ⟨exact / spacing + 1, exponent⟩
  if lower.rank = rank then
    if upper.rank = rank ∧ spacing ≤ 2 * (exact % spacing) then some upper else some lower
  else if upper.rank = rank then some upper
  else none

/-- The shortest decimal with a given rank: the first hit on the grids with one digit, two digits
and so on. The exact expansion is the last of them, and always reads back. -/
def shortest (rank : Nat) : Decimal :=
  let exact := exactDigits rank
  let count := digitCount exact
  let hit := (List.range count).findSome? fun i => neighbour? rank exact (count - 1 - i)
  hit.getD ⟨exact, -1074⟩

/-- A decimal as `0.d₁…dₖ` times a power of ten, with no zero at either end of the digits. -/
structure Digits where
  chars : List Char
  /-- The place of the point: the power of ten that the digits after the point are scaled by. -/
  point : Int
  deriving DecidableEq, Repr

/-- The digits of a decimal that is not zero. -/
def Digits.ofDecimal (d : Decimal) : Digits :=
  let chars := Nat.toDigits 10 d.digits
  ⟨(chars.reverse.dropWhile (· == '0')).reverse, chars.length + d.exponent⟩

/-- The shortest digits with a given rank. -/
def digitsOfRank (rank : Nat) : Digits := .ofDecimal (shortest rank)

end Eligibility.Binary64
