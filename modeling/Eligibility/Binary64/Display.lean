import Eligibility.Binary64.Shortest
/-!
# The written form of a number

`Binary64.display` writes a number with the shortest digits that read back. Magnitudes from
`10 ^ -6` up to but not including `10 ^ 21` are written positionally, all others with an exponent.
Both zeros are `0`. `Binary64.plain` writes every number positionally and keeps the sign of a zero.
-/

namespace Eligibility.Binary64

/-- Digits written positionally: with zeros up to the point, or with a point among them, or with
zeros after a leading `0.`. -/
def positional (d : Digits) : List Char :=
  if d.point ≤ 0 then
    '0' :: '.' :: (List.replicate (-d.point).toNat '0' ++ d.chars)
  else if d.chars.length ≤ d.point.toNat then
    d.chars ++ List.replicate (d.point.toNat - d.chars.length) '0'
  else
    d.chars.take d.point.toNat ++ '.' :: d.chars.drop d.point.toNat

/-- Digits written with an exponent, whose sign is always there: one digit, then a point and the
others if there are any. -/
def scientific (d : Digits) : List Char :=
  let exponent := d.point - 1
  let sign := if exponent < 0 then '-' else '+'
  let mantissa :=
    match d.chars with
    | first :: second :: rest => first :: '.' :: second :: rest
    | short => short
  mantissa ++ 'e' :: sign :: Nat.toDigits 10 exponent.natAbs

/-- The rank of `10 ^ -6`, from which on magnitudes are written positionally. -/
def plainFrom : Nat := (⟨1, -6⟩ : Decimal).rank

/-- The rank of `10 ^ 21`, up to which magnitudes are written positionally. -/
def plainBelow : Nat := (⟨1, 21⟩ : Decimal).rank

/-- The written form of a finite magnitude that is not zero. -/
def displayMagnitude (rank : Nat) : List Char :=
  if plainFrom ≤ rank ∧ rank < plainBelow then positional (digitsOfRank rank)
  else scientific (digitsOfRank rank)

/-- A text with a minus sign in front of it if it is negative. -/
def signed (negative : Bool) (text : List Char) : List Char :=
  if negative then '-' :: text else text

/-- The written form of a number. -/
def display (x : Binary64) : String :=
  if x.rank = 0 then "0"
  else if x.isNaN then "NaN"
  else if x.isFinite then String.ofList (signed x.negative (displayMagnitude x.rank))
  else String.ofList (signed x.negative "Infinity".toList)

/-- The written form of a number without exponents. -/
def plain (x : Binary64) : String :=
  if x.isNaN then "NaN"
  else if !x.isFinite then String.ofList (signed x.negative "inf".toList)
  else if x.rank = 0 then String.ofList (signed x.negative ['0'])
  else String.ofList (signed x.negative (positional (digitsOfRank x.rank)))

end Eligibility.Binary64
