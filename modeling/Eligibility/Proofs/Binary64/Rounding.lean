import Eligibility.Binary64.Shortest
import Mathlib.Algebra.Group.Nat.Defs
import Mathlib.Tactic.SplitIfs
/-!
# Rounding to a double

The rank nearest to a quotient depends on the value of the quotient alone (`rankOfRatio_congr`), and
the magnitude of a finite rank is rounded to this rank (`rankOfRatio_unitsOfRank`).

The rank of a decimal is that of its value, written as a quotient (`Decimal.rank_eq`): where
`Decimal.rank` answers without arithmetic, the quotient is far above the largest finite magnitude or
below half the smallest one. So decimals of the same value have the same rank
(`Decimal.rank_congr`), and the shortest decimal of a rank reads back as that rank
(`rank_shortest`).
-/

namespace Eligibility

namespace Binary64

variable {num den num' den' rank : Nat}

/-- The number of units per one is a power of two. Its exponent is a variable here, so that the
power is not computed. -/
theorem exists_unitsPerOne_eq : ∃ n, n = 1074 ∧ unitsPerOne = 2 ^ n := by
  refine ⟨1074, rfl, ?_⟩
  unfold unitsPerOne
  generalize 1074 = n
  rfl

theorem unitsPerOne_pos : 0 < unitsPerOne := by
  obtain ⟨n, -, hn⟩ := exists_unitsPerOne_eq
  rw [hn]
  exact Nat.two_pow_pos n

/-! ## The value of a quotient -/

theorem roundHalfEven_mul_right (num den : Nat) {k : Nat} (hk : 0 < k) :
    roundHalfEven (num * k) (den * k) = roundHalfEven num den := by
  have hrest : 2 * (num % den * k) = 2 * (num % den) * k := (Nat.mul_assoc ..).symm
  unfold roundHalfEven
  simp only [Nat.mul_div_mul_right _ _ hk, Nat.mul_mod_mul_right, hrest, Nat.mul_lt_mul_right hk]

theorem roundHalfEven_mul_self (n : Nat) (hden : 0 < den) : roundHalfEven (n * den) den = n := by
  simp [roundHalfEven, Nat.mul_div_cancel n hden, hden]

theorem rankOfRatio_mul_right (num den : Nat) {k : Nat} (hk : 0 < k) :
    rankOfRatio (num * k) (den * k) = rankOfRatio num den := by
  simp only [rankOfRatio, Nat.mul_div_mul_right _ _ hk, Nat.shiftLeft_eq, Nat.mul_right_comm den k,
    roundHalfEven_mul_right _ _ hk]

/-- **The rank nearest to a quotient** depends on its value alone. -/
theorem rankOfRatio_congr (hden : 0 < den) (hden' : 0 < den') (h : num * den' = num' * den) :
    rankOfRatio num den = rankOfRatio num' den' := by
  rw [← rankOfRatio_mul_right num den hden', h, Nat.mul_comm den den',
    rankOfRatio_mul_right num' den' hden]

/-! ## Magnitudes of finite values -/

/-- A rank is the place of its magnitude within a binade and the number of binades below it. -/
theorem unitsOfRank_eq (h : leadingBit ≤ rank) : unitsOfRank rank =
    (leadingBit + rank % leadingBit) * 2 ^ (rank / leadingBit - 1) := by
  rw [unitsOfRank, if_neg (Nat.not_lt.2 h), Nat.shiftLeft_eq]

theorem log2_unitsOfRank (h : leadingBit ≤ rank) :
    (unitsOfRank rank).log2 = fractionBits + (rank / leadingBit - 1) := by
  have hfraction : rank % leadingBit < leadingBit := Nat.mod_lt _ (by decide)
  have hpos : 0 < 2 ^ (rank / leadingBit - 1) := Nat.two_pow_pos _
  have hbit : leadingBit = 2 ^ fractionBits := by decide
  have hne : unitsOfRank rank ≠ 0 := by
    rw [unitsOfRank_eq h]
    exact Nat.mul_ne_zero (by simp [leadingBit]) (Nat.ne_of_gt hpos)
  rw [Nat.log2_eq_iff hne, unitsOfRank_eq h, Nat.pow_add, Nat.add_right_comm, Nat.pow_add,
    Nat.pow_succ, ← hbit]
  constructor
  · exact Nat.mul_le_mul_right _ (Nat.le_add_right ..)
  · exact Nat.mul_lt_mul_of_pos_right (by omega) hpos

/-- **The magnitude of a finite rank** is rounded to that rank. -/
theorem rankOfRatio_unitsOfRank (h : rank < infinityRank) (hden : 0 < den) :
    rankOfRatio (unitsOfRank rank * den) den = rank := by
  unfold rankOfRatio
  simp only [Nat.mul_div_cancel _ hden]
  by_cases hsmall : rank < leadingBit
  · -- below the first binade the magnitude is the rank itself, and nothing is shifted
    have hunits : unitsOfRank rank = rank := if_pos hsmall
    have hlog : rank.log2 - fractionBits = 0 := by
      have hlt : rank < 2 ^ fractionBits := hsmall
      rcases Nat.eq_zero_or_pos rank with rfl | hpos
      · decide
      · have := (Nat.log2_lt (Nat.ne_of_gt hpos)).2 hlt
        omega
    simp only [hunits, hlog, Nat.shiftLeft_zero, Nat.zero_mul, Nat.zero_add]
    rw [roundHalfEven_mul_self rank hden]
    exact Nat.min_eq_right (Nat.le_of_lt h)
  · have hlarge : leadingBit ≤ rank := Nat.not_lt.1 hsmall
    have hshift : (unitsOfRank rank).log2 - fractionBits = rank / leadingBit - 1 := by
      rw [log2_unitsOfRank hlarge, Nat.add_sub_cancel_left]
    have hnum : unitsOfRank rank * den =
        (leadingBit + rank % leadingBit) * (den <<< (rank / leadingBit - 1)) := by
      rw [unitsOfRank_eq hlarge, Nat.shiftLeft_eq, Nat.mul_assoc,
        Nat.mul_comm (2 ^ (rank / leadingBit - 1)) den]
    have hpos : 0 < den <<< (rank / leadingBit - 1) := by
      rw [Nat.shiftLeft_eq]
      exact Nat.mul_pos hden (Nat.two_pow_pos _)
    have hrank :
        (rank / leadingBit - 1) * leadingBit + (leadingBit + rank % leadingBit) = rank := by
      have hdiv := Nat.div_add_mod rank leadingBit
      have hone : 1 ≤ rank / leadingBit := Nat.div_pos hlarge (by decide)
      simp only [leadingBit] at *
      omega
    rw [hshift, hnum, roundHalfEven_mul_self _ hpos, hrank]
    exact Nat.min_eq_right (Nat.le_of_lt h)

/-- Finite ranks with the same magnitude are the same. -/
theorem unitsOfRank_inj (h : rank < infinityRank) {rank' : Nat} (h' : rank' < infinityRank)
    (hunits : unitsOfRank rank = unitsOfRank rank') : rank = rank' := by
  rw [← rankOfRatio_unitsOfRank h Nat.one_pos, hunits, rankOfRatio_unitsOfRank h' Nat.one_pos]

theorem signedUnits_eq_zero {x : Binary64} (h : x.rank = 0) : x.signedUnits = 0 := by
  have hunits : x.units = 0 := by
    rw [units, h]
    rfl
  rw [signedUnits, hunits]
  split <;> rfl

/-! ## Far from all finite values -/

/-- What lies below half the smallest magnitude is rounded to zero. -/
theorem rankOfRatio_eq_zero (h : 2 * num < den) : rankOfRatio num den = 0 := by
  have hlt : num < den := by omega
  simp [rankOfRatio, roundHalfEven, Nat.div_eq_of_lt hlt, Nat.mod_eq_of_lt hlt, h, fractionBits]

/-- What lies far above the largest finite magnitude is rounded to infinity. -/
theorem rankOfRatio_eq_infinityRank {n : Nat} (hn : 2099 ≤ n) (hden : 0 < den)
    (h : 2 ^ n * den ≤ num) : rankOfRatio num den = infinityRank := by
  have hquotient : 2 ^ n ≤ num / den := (Nat.le_div_iff_mul_le hden).2 h
  have hlog : n ≤ (num / den).log2 := by
    refine (Nat.le_log2 ?_).2 hquotient
    exact Nat.ne_of_gt (Nat.lt_of_lt_of_le (Nat.two_pow_pos _) hquotient)
  refine Nat.min_eq_left ?_
  simp only [infinityRank, leadingBit, fractionBits]
  omega

end Binary64

/-! ## Decimals -/

namespace Decimal

open Binary64

variable {d d' : Decimal}

/-- The upper part of a decimal as a quotient. -/
def numerator (d : Decimal) : Nat := d.digits * 10 ^ d.exponent.toNat

/-- The lower part of a decimal as a quotient. -/
def denominator (d : Decimal) : Nat := 10 ^ (-d.exponent).toNat

theorem denominator_pos (d : Decimal) : 0 < d.denominator := Nat.pow_pos (by decide)

theorem denominator_of_nonneg (h : 0 ≤ d.exponent) : d.denominator = 1 := by
  rw [denominator, Int.toNat_of_nonpos (by omega), Nat.pow_zero]

theorem numerator_of_nonpos (h : d.exponent ≤ 0) : d.numerator = d.digits := by
  rw [numerator, Int.toNat_of_nonpos h, Nat.pow_zero, Nat.mul_one]

theorem two_pow_le_ten_pow (n : Nat) : 2 ^ (3 * n) ≤ 10 ^ n := by
  rw [Nat.pow_mul]
  exact Nat.pow_le_pow_left (by decide) n

/-- From `10 ^ 400` on a magnitude is infinite. -/
theorem rankOfRatio_of_large (hdigits : d.digits ≠ 0) (h : 400 ≤ d.exponent) :
    rankOfRatio (d.numerator * unitsPerOne) d.denominator = infinityRank := by
  have hpower : 2 ^ (3 * d.exponent.toNat) ≤ d.numerator := by
    rw [← Nat.one_mul (2 ^ _)]
    exact Nat.mul_le_mul (Nat.pos_of_ne_zero hdigits) (two_pow_le_ten_pow _)
  obtain ⟨n, hn, hunits⟩ := exists_unitsPerOne_eq
  rw [denominator_of_nonneg (by omega)]
  refine @rankOfRatio_eq_infinityRank _ _ (3 * d.exponent.toNat + n) (by omega) Nat.one_pos ?_
  calc
    2 ^ (3 * d.exponent.toNat + n) * 1 = 2 ^ (3 * d.exponent.toNat) * unitsPerOne := by
      rw [hunits, Nat.pow_add, Nat.mul_one]
    _ ≤ d.numerator * unitsPerOne := Nat.mul_le_mul_right _ hpower

/-- Up to `10 ^ -400` a magnitude is zero. -/
theorem rankOfRatio_of_small (h : d.digits.log2 + 1 + d.exponent ≤ -400) :
    rankOfRatio (d.numerator * unitsPerOne) d.denominator = 0 := by
  have hnum : d.numerator < 2 ^ (d.digits.log2 + 1) := by
    rw [numerator_of_nonpos (by omega)]
    exact Nat.lt_log2_self
  obtain ⟨n, hn, hunits⟩ := exists_unitsPerOne_eq
  refine rankOfRatio_eq_zero ?_
  calc
    2 * (d.numerator * unitsPerOne) < 2 * (2 ^ (d.digits.log2 + 1) * unitsPerOne) :=
      Nat.mul_lt_mul_of_pos_left (Nat.mul_lt_mul_of_pos_right hnum unitsPerOne_pos) Nat.two_pos
    _ = 2 ^ (d.digits.log2 + 1 + n + 1) := by rw [hunits, ← Nat.pow_add, ← Nat.pow_succ']
    _ ≤ 2 ^ (3 * (-d.exponent).toNat) := Nat.pow_le_pow_right Nat.two_pos (by omega)
    _ ≤ d.denominator := two_pow_le_ten_pow _

/-- **The rank of a decimal** is that of its value, written as a quotient. -/
theorem rank_eq (d : Decimal) :
    d.rank = rankOfRatio (d.numerator * unitsPerOne) d.denominator := by
  unfold rank
  split_ifs with hzero hlarge hsmall hwhole
  · rw [numerator, hzero, Nat.zero_mul, Nat.zero_mul]
    exact (rankOfRatio_eq_zero d.denominator_pos).symm
  · exact (rankOfRatio_of_large hzero hlarge).symm
  · exact (rankOfRatio_of_small hsmall).symm
  · rw [denominator_of_nonneg hwhole, numerator, Nat.pow_eq]
  · rw [numerator_of_nonpos (by omega), denominator, Nat.pow_eq]

/-- Decimals of the same value have the same rank. -/
theorem rank_congr (h : d.numerator * d'.denominator = d'.numerator * d.denominator) :
    d.rank = d'.rank := by
  rw [rank_eq, rank_eq]
  refine rankOfRatio_congr d.denominator_pos d'.denominator_pos ?_
  rw [Nat.mul_right_comm, h, Nat.mul_right_comm]

/-- Zeros at the end of the digits count as powers of ten. -/
theorem rank_mul_ten_pow (digits k : Nat) (exponent : Int) :
    (⟨digits * 10 ^ k, exponent⟩ : Decimal).rank = (⟨digits, exponent + k⟩ : Decimal).rank := by
  refine rank_congr ?_
  simp only [numerator, denominator, Nat.mul_assoc, ← Nat.pow_add]
  congr 2
  omega

end Decimal

/-! ## The shortest decimal -/

namespace Binary64

/-- A number of `10 ^ -n` with `n` fives among its factors is a number of `2 ^ -n`. -/
theorem rank_mul_five_pow (units n : Nat) (h : unitsPerOne = 2 ^ n) {exponent : Int}
    (hexponent : exponent = -n) :
    (⟨units * Nat.pow 5 n, exponent⟩ : Decimal).rank = rankOfRatio (units * 10 ^ n) (10 ^ n) := by
  subst hexponent
  have hten : Nat.pow 5 n * 2 ^ n = 10 ^ n := (Nat.mul_pow 5 2 n).symm
  rw [Decimal.rank_eq, Decimal.numerator_of_nonpos (by simp), h, Nat.mul_assoc, hten,
    Decimal.denominator, Int.neg_neg, Int.toNat_natCast]

/-- The exact expansion of a finite magnitude reads back. -/
theorem rank_exactDigits {rank : Nat} (h : rank < infinityRank) :
    (⟨exactDigits rank, -1074⟩ : Decimal).rank = rank := by
  obtain ⟨n, hn, hunits⟩ := exists_unitsPerOne_eq
  have hexponent : (-1074 : Int) = -n := by rw [hn]; rfl
  rw [exactDigits, ← hn, rank_mul_five_pow _ n hunits hexponent]
  exact rankOfRatio_unitsOfRank h (Nat.pow_pos (by decide))

theorem rank_of_neighbour? {rank exact step : Nat} {d : Decimal}
    (h : neighbour? rank exact step = some d) : d.rank = rank := by
  unfold neighbour? at h
  grind

/-- **The shortest decimal** of a finite rank reads back as that rank. -/
theorem rank_shortest {rank : Nat} (h : rank < infinityRank) : (shortest rank).rank = rank := by
  simp only [shortest]
  cases hhit : List.findSome? _ (List.range _) with
  | none => exact rank_exactDigits h
  | some d =>
    obtain ⟨step, -, hstep⟩ := List.exists_of_findSome?_eq_some hhit
    exact rank_of_neighbour? hstep

end Binary64

end Eligibility
