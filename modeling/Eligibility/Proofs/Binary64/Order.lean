import Eligibility.Proofs.Binary64.Rounding
import Mathlib.Algebra.Order.Field.Power
import Mathlib.Data.Rat.Cast.Order
import Mathlib.Tactic.FieldSimp
import Mathlib.Tactic.GCongr
import Mathlib.Tactic.Linarith
import Mathlib.Tactic.Positivity
import Mathlib.Tactic.Ring
/-!
# Rounding keeps order

The rank nearest to a quotient does not decrease when the quotient grows (`rankOfRatio_mono`).
Within one binade this is so because rounding to a natural number keeps order
(`roundHalfEven_mono`), and between two binades because none is left upwards or downwards.

`Decimal.toRat` is the value of a decimal and `magnitude` that of a finite rank, as rational
numbers. The rank of a decimal keeps their order (`Decimal.rank_mono`), so that what lies between
two decimals of one rank has that rank too (`Decimal.rank_between`).
-/

namespace Eligibility

namespace Binary64

variable {num den num' den' n : Nat}

/-! ## Rounding to a natural number -/

theorem le_roundHalfEven (hden : 0 < den) (h : n * den ≤ num) : n ≤ roundHalfEven num den := by
  have hquotient : n ≤ num / den := (Nat.le_div_iff_mul_le hden).2 h
  unfold roundHalfEven
  simp only
  split_ifs <;> omega

theorem roundHalfEven_le_succ (num den : Nat) : roundHalfEven num den ≤ num / den + 1 := by
  unfold roundHalfEven
  simp only
  split_ifs <;> omega

theorem roundHalfEven_le (hden : 0 < den) (h : num ≤ n * den) : roundHalfEven num den ≤ n := by
  rcases Nat.eq_or_lt_of_le h with rfl | hlt
  · exact Nat.le_of_eq (roundHalfEven_mul_self n hden)
  · have hquotient : num / den < n := (Nat.div_lt_iff_lt_mul hden).2 hlt
    exact Nat.le_trans (roundHalfEven_le_succ ..) hquotient

theorem div_le_div_of_mul_le (hden : 0 < den) (hden' : 0 < den') (h : num * den' ≤ num' * den) :
    num / den ≤ num' / den' := by
  refine (Nat.le_div_iff_mul_le hden').2 (Nat.le_of_mul_le_mul_right ?_ hden)
  calc
    num / den * den' * den = num / den * den * den' := Nat.mul_right_comm ..
    _ ≤ num * den' := Nat.mul_le_mul_right _ (Nat.div_mul_le_self num den)
    _ ≤ num' * den := h

/-- **Rounding to a natural number keeps order.** -/
theorem roundHalfEven_mono (hden : 0 < den) (hden' : 0 < den') (h : num * den' ≤ num' * den) :
    roundHalfEven num den ≤ roundHalfEven num' den' := by
  have hquotient := div_le_div_of_mul_le hden hden' h
  rcases Nat.eq_or_lt_of_le hquotient with heq | hlt
  · -- with equal quotients the rests decide, and they are in the same order
    have hnum : num / den * den + num % den = num := Nat.div_add_mod' num den
    have hnum' : num' / den' * den' + num' % den' = num' := Nat.div_add_mod' num' den'
    unfold roundHalfEven
    simp only
    rw [← heq] at hnum' ⊢
    generalize num / den = q at hnum hnum' ⊢
    generalize num % den = r at hnum ⊢
    generalize num' % den' = r' at hnum' ⊢
    have hrest : r * den' ≤ r' * den := by
      subst hnum hnum'
      linarith
    have hbelow : 2 * r' < den' → 2 * r < den := fun hlt =>
      Nat.lt_of_mul_lt_mul_right (a := den') (by nlinarith)
    have hhalf : 2 * r' ≤ den' → 2 * r ≤ den := fun hle =>
      Nat.le_of_mul_le_mul_right (c := den') (by nlinarith) hden'
    split_ifs <;> omega
  · calc
      roundHalfEven num den ≤ num / den + 1 := roundHalfEven_le_succ ..
      _ ≤ num' / den' := hlt
      _ ≤ roundHalfEven num' den' := le_roundHalfEven hden' (Nat.div_mul_le_self num' den')

/-! ## Rounding to a rank -/

/-- **Rounding to a rank keeps order.** -/
theorem rankOfRatio_mono (hden : 0 < den) (hden' : 0 < den') (h : num * den' ≤ num' * den) :
    rankOfRatio num den ≤ rankOfRatio num' den' := by
  have hquotient := div_le_div_of_mul_le hden hden' h
  unfold rankOfRatio
  simp only
  refine min_le_min_left _ ?_
  obtain ⟨shift, hshift⟩ : ∃ shift, (num / den).log2 - fractionBits = shift := ⟨_, rfl⟩
  obtain ⟨shift', hshift'⟩ : ∃ shift', (num' / den').log2 - fractionBits = shift' := ⟨_, rfl⟩
  rw [hshift, hshift', Nat.shiftLeft_eq, Nat.shiftLeft_eq]
  have hpos : 0 < den * 2 ^ shift := Nat.mul_pos hden (Nat.two_pow_pos _)
  have hpos' : 0 < den' * 2 ^ shift' := Nat.mul_pos hden' (Nat.two_pow_pos _)
  have hbit : leadingBit = 2 ^ fractionBits := by decide
  have hlog : (num / den).log2 ≤ (num' / den').log2 := by
    rcases Nat.eq_zero_or_pos (num / den) with hzero | hpos
    · simp [hzero]
    · exact (Nat.le_log2 (by omega)).2 ((Nat.log2_self_le (by omega)).trans hquotient)
  rcases Nat.eq_or_lt_of_le (show shift ≤ shift' by omega) with rfl | hlt
  · refine Nat.add_le_add_left (roundHalfEven_mono hpos hpos' ?_) _
    rw [← Nat.mul_assoc, ← Nat.mul_assoc]
    exact Nat.mul_le_mul_right _ h
  · -- the lower quotient is rounded to the end of its binade at most
    have hlower : num ≤ 2 * leadingBit * (den * 2 ^ shift) := by
      have hlt : num / den < 2 ^ (fractionBits + shift + 1) :=
        Nat.lt_of_lt_of_le Nat.lt_log2_self (Nat.pow_le_pow_right Nat.two_pos (by omega))
      have hnum := ((Nat.div_lt_iff_lt_mul hden).1 hlt).le
      rw [hbit]
      refine hnum.trans (Nat.le_of_eq ?_)
      ring
    -- and the upper one to the start of its binade at least
    have hupper : leadingBit * (den' * 2 ^ shift') ≤ num' := by
      have hne : num' / den' ≠ 0 := by
        intro hzero
        rw [hzero, Nat.log2_zero] at hshift'
        omega
      have hle : 2 ^ (fractionBits + shift') ≤ num' / den' :=
        (Nat.le_log2 hne).1 (by omega)
      have hnum := (Nat.le_div_iff_mul_le hden').1 hle
      rw [hbit]
      refine (Nat.le_of_eq ?_).trans hnum
      ring
    calc
      shift * leadingBit + roundHalfEven num (den * 2 ^ shift) ≤
          shift * leadingBit + 2 * leadingBit :=
        Nat.add_le_add_left (roundHalfEven_le hpos hlower) _
      _ = (shift + 1) * leadingBit + leadingBit := by ring
      _ ≤ shift' * leadingBit + leadingBit :=
        Nat.add_le_add_right (Nat.mul_le_mul_right _ hlt) _
      _ ≤ shift' * leadingBit + roundHalfEven num' (den' * 2 ^ shift') :=
        Nat.add_le_add_left (le_roundHalfEven hpos' hupper) _

end Binary64

/-! ## Decimals by their values -/

namespace Decimal

open Binary64

variable {d d' d'' : Decimal}

/-- The value of a decimal. -/
def toRat (d : Decimal) : ℚ := d.digits * 10 ^ d.exponent

theorem toRat_eq (d : Decimal) : d.toRat = d.numerator / d.denominator := by
  obtain ⟨digits, exponent⟩ := d
  rcases Int.le_total 0 exponent with h | h
  · obtain ⟨k, rfl⟩ := Int.eq_ofNat_of_zero_le h
    simp [toRat, numerator, denominator]
  · obtain ⟨k, hk⟩ := Int.eq_ofNat_of_zero_le (Int.neg_nonneg.2 h)
    obtain rfl : exponent = -k := by omega
    simp [toRat, numerator, denominator, div_eq_mul_inv]

/-- **The rank of a decimal** does not decrease when its value grows. -/
theorem rank_mono (h : d.toRat ≤ d'.toRat) : d.rank ≤ d'.rank := by
  rw [rank_eq, rank_eq]
  refine rankOfRatio_mono d.denominator_pos d'.denominator_pos ?_
  have hpos : (0 : ℚ) < d.denominator := Nat.cast_pos.2 d.denominator_pos
  have hpos' : (0 : ℚ) < d'.denominator := Nat.cast_pos.2 d'.denominator_pos
  rw [toRat_eq, toRat_eq, div_le_div_iff₀ hpos hpos'] at h
  have hcross : d.numerator * d'.denominator ≤ d'.numerator * d.denominator := by exact_mod_cast h
  rw [Nat.mul_right_comm, Nat.mul_right_comm d'.numerator]
  exact Nat.mul_le_mul_right _ hcross

/-- What lies between two decimals of one rank has that rank. -/
theorem rank_between (h : d.toRat ≤ d'.toRat) (h' : d'.toRat ≤ d''.toRat)
    (hrank : d.rank = d''.rank) : d'.rank = d''.rank :=
  Nat.le_antisymm (rank_mono h') (hrank ▸ rank_mono h)

end Decimal

namespace Binary64

/-- The magnitude with a finite rank. -/
def magnitude (rank : Nat) : ℚ := unitsOfRank rank / unitsPerOne

/-- The exact expansion of a finite magnitude is this magnitude. -/
theorem toRat_exactDigits (rank : Nat) :
    (⟨exactDigits rank, -1074⟩ : Decimal).toRat = magnitude rank := by
  obtain ⟨n, hn, hunits⟩ := exists_unitsPerOne_eq
  have hexponent : (-1074 : Int) = -n := by rw [hn]; rfl
  have hfive : (5 : ℚ) ^ n * 2 ^ n = 10 ^ n := by rw [← mul_pow]; norm_num
  rw [Decimal.toRat, magnitude, exactDigits, ← hn, hexponent, hunits]
  simp only [Nat.pow_eq]
  rw [zpow_neg, zpow_natCast, ← hfive]
  push_cast
  field_simp

end Binary64

end Eligibility
