/-!
# Binary floating point, exactly

A `Binary64` is an IEEE 754 double: a sign and a `rank`, the place of its magnitude in the
increasing list of all magnitudes. Infinity has rank `infinityRank`, and the ranks above it are
the values that are no number. Every finite magnitude is a natural number of `2 ^ -1074`, its
`units`, so that comparisons and roundings are arithmetic on natural numbers.

`rankOfRatio` rounds a quotient to the nearest rank, a tie going to the even one, which is the
rounding of the standard.
-/

namespace Eligibility

/-- The bit of the sign, `2 ^ 63`. -/
def Binary64.signBit : Nat := 0x8000000000000000

/-- An IEEE 754 double. Two values are equal when they have the same bits. -/
@[ext]
structure Binary64 where
  negative : Bool
  /-- The place of the magnitude among all magnitudes, which is also its bit pattern. -/
  rank : Nat
  rank_lt : rank < Binary64.signBit
  deriving DecidableEq, Repr

namespace Binary64

/-- The number of bits of a fraction. -/
def fractionBits : Nat := 52

/-- The bit above those of a fraction, `2 ^ 52`. -/
def leadingBit : Nat := 0x10000000000000

/-- Units per one: a unit is `2 ^ -1074`, the smallest positive magnitude. -/
def unitsPerOne : Nat := Nat.pow 2 1074

/-- The rank of infinity, `2047 * 2 ^ 52`. -/
def infinityRank : Nat := 0x7FF0000000000000

theorem infinityRank_lt : infinityRank < signBit := by decide

/-! ## Bit patterns -/

/-- The value with a bit pattern, of which the low 64 bits count. -/
def ofBits (bits : Nat) : Binary64 :=
  ⟨bits / signBit % 2 == 1, bits % signBit, Nat.mod_lt _ (by decide)⟩

/-- The bit pattern of a value. -/
def bits (x : Binary64) : Nat :=
  (if x.negative then signBit else 0) + x.rank

/-! ## Classes -/

/-- Whether a value is a number other than an infinity. -/
def isFinite (x : Binary64) : Bool := x.rank < infinityRank

/-- Whether a value is no number. -/
def isNaN (x : Binary64) : Bool := infinityRank < x.rank

/-- The infinity of a sign. -/
def infinity (negative : Bool) : Binary64 := ⟨negative, infinityRank, infinityRank_lt⟩

/-- A value that is no number. -/
def nan : Binary64 := ⟨false, 0x7FF8000000000000, by decide⟩

/-- The zero of a sign. -/
def zero (negative : Bool) : Binary64 := ⟨negative, 0, by decide⟩

/-! ## Magnitudes -/

/-- The magnitude with a finite rank, in units. -/
def unitsOfRank (rank : Nat) : Nat :=
  if rank < leadingBit then rank
  else (leadingBit + rank % leadingBit) <<< (rank / leadingBit - 1)

/-- The magnitude of a finite value, in units. -/
def units (x : Binary64) : Nat := unitsOfRank x.rank

/-- A finite value, in units. Both zeros are `0`. -/
def signedUnits (x : Binary64) : Int :=
  if x.negative then -(x.units : Int) else x.units

/-- Whether a finite value is smaller than another. -/
def less (x y : Binary64) : Bool := x.signedUnits < y.signedUnits

/-! ## Rounding -/

/-- The natural number nearest to a quotient, a tie going to the even one. -/
def roundHalfEven (num den : Nat) : Nat :=
  let quotient := num / den
  let rest := num % den
  if 2 * rest < den then quotient
  else if den < 2 * rest then quotient + 1
  else quotient + quotient % 2

/-- The rank nearest to a quotient of units, a tie going to the even rank. What lies at least half a
step above the largest finite magnitude becomes infinite. -/
def rankOfRatio (num den : Nat) : Nat :=
  let shift := (num / den).log2 - fractionBits
  min infinityRank (shift * leadingBit + roundHalfEven num (den <<< shift))

theorem rankOfRatio_le (num den : Nat) : rankOfRatio num den ≤ infinityRank :=
  Nat.min_le_left ..

/-- The value nearest to a quotient of natural numbers, with a sign. -/
def ofRatio (negative : Bool) (num den : Nat) : Binary64 :=
  ⟨negative, rankOfRatio (num * unitsPerOne) den,
    Nat.lt_of_le_of_lt (rankOfRatio_le ..) infinityRank_lt⟩

/-- The value nearest to an integer. -/
def ofInt (n : Int) : Binary64 := ofRatio (n < 0) n.natAbs 1

end Binary64

end Eligibility
