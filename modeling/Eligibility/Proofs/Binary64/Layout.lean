import Eligibility.Proofs.Binary64.Fewest
/-!
# The layout of numbers

`display` chooses between its two forms by the rank of a number, against the ranks of `10 ^ -6` and
`10 ^ 21`. What decides is the place of the point in the shortest digits, though: both powers of ten
are written as themselves, and rounding keeps order, so that the rank of such a power is reached
where the point is beyond it (`rank_le_iff_lt_point`), also by the neighbours of the two thresholds.

So the written form is a function of the shortest digits and the sign (`display_layout`).
-/

namespace Eligibility

namespace Binary64

open Decimal

/-- The layout of `0.d₁…dₖ * 10 ^ p`: padded with zeros, with a point among the digits, with zeros
after the point, or with an exponent. -/
def Digits.layout (g : Digits) : List Char :=
  if g.chars.length ≤ g.point ∧ g.point ≤ 21 then
    g.chars ++ List.replicate (g.point - g.chars.length).toNat '0'
  else if 0 < g.point ∧ g.point ≤ 21 then
    g.chars.take g.point.toNat ++ '.' :: g.chars.drop g.point.toNat
  else if -6 < g.point ∧ g.point ≤ 0 then
    '0' :: '.' :: (List.replicate (-g.point).toNat '0' ++ g.chars)
  else
    let others := if g.chars.length = 1 then [] else '.' :: g.chars.drop 1
    let sign := if g.point ≤ 0 then '-' else '+'
    g.chars.take 1 ++ others ++ 'e' :: sign :: Nat.toDigits 10 (g.point - 1).natAbs

/-! ## The thresholds -/

section

variable {rank : Nat} {exponent : Int} {g : Digits}

theorem toRat_one (exponent : Int) : (⟨1, exponent⟩ : Decimal).toRat = 10 ^ exponent := by
  rw [toRat, Nat.cast_one, one_mul]

/-- **A power of ten is reached** where the point is beyond it, if it is written as itself. -/
theorem rank_le_iff_lt_point (hzero : rank ≠ 0) (h : rank < infinityRank)
    (hpower : digitsOfRank (⟨1, exponent⟩ : Decimal).rank = ⟨['1'], exponent + 1⟩) :
    (⟨1, exponent⟩ : Decimal).rank ≤ rank ↔ exponent < (digitsOfRank rank).point := by
  obtain ⟨hlower, hupper⟩ := (isShortest_digitsOfRank hzero h).stripped.toRat_bounds
  have hrank := rank_value_digitsOfRank h
  constructor
  · intro hle
    rcases Nat.eq_or_lt_of_le hle with rfl | hlt
    · rw [hpower]
      exact Int.lt_succ exponent
    · have hbeyond : (10 : ℚ) ^ exponent < (digitsOfRank rank).value.toRat := by
        refine lt_of_not_ge fun hge => ?_
        rw [← toRat_one] at hge
        have := rank_mono hge
        omega
      exact (zpow_lt_zpow_iff_right₀ (by norm_num)).1 (hbeyond.trans hupper)
  · intro hlt
    rw [← hrank]
    refine rank_mono ?_
    rw [toRat_one]
    exact (zpow_le_zpow_right₀ (by norm_num) (by omega)).trans hlower

theorem plainFrom_le_iff (hzero : rank ≠ 0) (h : rank < infinityRank) :
    plainFrom ≤ rank ↔ -6 < (digitsOfRank rank).point :=
  rank_le_iff_lt_point hzero h (by decide +kernel)

theorem lt_plainBelow_iff (hzero : rank ≠ 0) (h : rank < infinityRank) :
    rank < plainBelow ↔ (digitsOfRank rank).point ≤ 21 := by
  have hpower : plainBelow ≤ rank ↔ 21 < (digitsOfRank rank).point :=
    rank_le_iff_lt_point hzero h (by decide +kernel)
  omega

/-! ## The two forms -/

theorem layout_of_plain (h : g.Proper) (hpoint : -6 < g.point ∧ g.point ≤ 21) :
    g.layout = positional g := by
  have hlength := List.length_pos_of_ne_nil h.chars_ne_nil
  unfold Digits.layout positional
  split_ifs <;> try omega
  · congr 2
    omega
  · rfl
  · rfl

theorem layout_of_not_plain (h : g.Proper) (hpoint : ¬ (-6 < g.point ∧ g.point ≤ 21)) :
    g.layout = scientific g := by
  have hlength := List.length_pos_of_ne_nil h.chars_ne_nil
  have hsign : (if g.point ≤ 0 then '-' else '+') = if g.point - 1 < 0 then '-' else '+' :=
    if_congr (by omega) rfl rfl
  unfold Digits.layout scientific
  rw [if_neg (by omega), if_neg (by omega), if_neg (by omega), hsign]
  rcases hchars : g.chars with _ | ⟨first, _ | ⟨second, others⟩⟩
  · exact absurd hchars h.chars_ne_nil
  · rfl
  · rfl

/-- The form of a magnitude is the layout of its digits. -/
theorem displayMagnitude_eq_layout (hzero : rank ≠ 0) (h : rank < infinityRank) :
    displayMagnitude rank = (digitsOfRank rank).layout := by
  have hproper := proper_digitsOfRank hzero h
  have hplain := and_congr (plainFrom_le_iff hzero h) (lt_plainBelow_iff hzero h)
  unfold displayMagnitude
  split
  next hrank => exact (layout_of_plain hproper (hplain.1 hrank)).symm
  next hrank => exact (layout_of_not_plain hproper (mt hplain.2 hrank)).symm

end

/-- **The written form of a number.** Both zeros are `0`, what is not finite has a name, and all
other numbers are written by the layout of their shortest digits, which are unique. -/
theorem display_layout (x : Binary64) :
    (x.rank = 0 → x.display = "0") ∧
    (x.isNaN = true → x.display = "NaN") ∧
    ((infinity false).display = "Infinity" ∧ (infinity true).display = "-Infinity") ∧
    (x.rank ≠ 0 → x.isFinite = true → ∃ g : Digits,
      (∀ other : Digits, other.IsShortest x.rank ↔ other = g) ∧
      x.display = String.ofList (signed x.negative g.layout)) := by
  refine ⟨fun hzero => if_pos hzero, fun hnan => ?_, ⟨by decide, by decide⟩,
    fun hzero hfinite => ?_⟩
  · have hrank : infinityRank < x.rank := of_decide_eq_true hnan
    have hzero : x.rank ≠ 0 := Nat.ne_zero_of_lt hrank
    rw [display, if_neg hzero, if_pos hnan]
  · have hrank : x.rank < infinityRank := of_decide_eq_true hfinite
    refine ⟨digitsOfRank x.rank, fun other => isShortest_iff hzero hrank, ?_⟩
    rw [display_of_isFinite hzero hrank, displayMagnitude_eq_layout hzero hrank]

/-- The number before `10 ^ 21` is written without an exponent, and the one before `10 ^ -6` with
one. -/
theorem display_layout_thresholds :
    (⟨true, 0x444B1AE4D6E2EF4F, by decide⟩ : Binary64).display = "-999999999999999900000" ∧
    (⟨false, 0x3EB0C6F7A0B5ED8C, by decide⟩ : Binary64).display = "9.999999999999997e-7" := by
  constructor
  · obtain ⟨g, hg, hdisplay⟩ :=
      (display_layout ⟨true, 0x444B1AE4D6E2EF4F, by decide⟩).2.2.2 (by decide) (by decide)
    rw [hdisplay, ← (hg _).1 (isShortest_digitsOfRank (by decide) (by decide))]
    decide +kernel
  · obtain ⟨g, hg, hdisplay⟩ :=
      (display_layout ⟨false, 0x3EB0C6F7A0B5ED8C, by decide⟩).2.2.2 (by decide) (by decide)
    rw [hdisplay, ← (hg _).1 (isShortest_digitsOfRank (by decide) (by decide))]
    decide +kernel

end Binary64

end Eligibility
