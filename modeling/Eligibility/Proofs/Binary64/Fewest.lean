import Eligibility.Proofs.Binary64.Order
import Eligibility.Proofs.Binary64.ReadBack
/-!
# The fewest digits

Digits without a zero at either end (`Digits.Stripped`) are a normal form: their value lies between
two powers of ten that the point tells, and no others have the same value.

`digitsOfRank` finds the one stripped decimal that writes a magnitude in the fewest digits, the
nearest of as few, and the larger of two as near (`isShortest_iff`). On the grid of the decimals
with `n` digits nothing lies between the two neighbours of the magnitude, and neither does a decimal
with fewer digits (`le_below_or_above_le`). Since rounding keeps order, a neighbour reads back if
anything with at most `n` digits beyond it does; and the search takes the first grid where one does.
-/

namespace Eligibility

open Text

/-! ## Digits in normal form -/

namespace Decimal

variable {cs cs' : List Char}

theorem valueOfDigits_cons (c : Char) (cs : List Char) : valueOfDigits (c :: cs) =
    10 ^ cs.length * (c.toNat - '0'.toNat) + valueOfDigits cs := by
  rw [valueOfDigits, Nat.ofDigitChars_cons, Nat.mul_zero, Nat.zero_add,
    Nat.ofDigitChars_eq_ofDigitChars_zero]
  rfl

/-- The value of a digit, and the digit with a value. -/
theorem exists_of_isDigit {c : Char} (h : c.isDigit = true) :
    c.toNat = '0'.toNat + (c.toNat - '0'.toNat) ∧ c.toNat - '0'.toNat < 10 := by
  have hbounds : 48 ≤ c.toNat ∧ c.toNat ≤ 57 := by
    simpa [Char.isDigit, Char.le_def, UInt32.le_iff_toNat_le] using h
  have hzero : '0'.toNat = 48 := rfl
  omega

theorem valueOfDigits_lt (h : ∀ c ∈ cs, c.isDigit = true) : valueOfDigits cs < 10 ^ cs.length := by
  induction cs with
  | nil => exact Nat.one_pos
  | cons c cs ih =>
    obtain ⟨hc, hcs⟩ := List.forall_mem_cons.1 h
    have hdigit := (exists_of_isDigit hc).2
    have hrest := ih hcs
    rw [valueOfDigits_cons, List.length_cons, Nat.pow_succ]
    nlinarith

/-- As many digits with the same value are the same digits. -/
theorem valueOfDigits_inj (hlength : cs.length = cs'.length) (h : ∀ c ∈ cs, c.isDigit = true)
    (h' : ∀ c ∈ cs', c.isDigit = true) (hvalue : valueOfDigits cs = valueOfDigits cs') :
    cs = cs' := by
  induction cs generalizing cs' with
  | nil => exact (List.eq_nil_of_length_eq_zero hlength.symm).symm
  | cons c cs ih =>
    obtain ⟨c', cs', rfl⟩ := List.exists_cons_of_length_eq_add_one hlength.symm
    obtain ⟨hc, hcs⟩ := List.forall_mem_cons.1 h
    obtain ⟨hc', hcs'⟩ := List.forall_mem_cons.1 h'
    have hlength : cs.length = cs'.length := Nat.succ.inj hlength
    have hlt := valueOfDigits_lt hcs
    have hlt' := valueOfDigits_lt hcs'
    rw [valueOfDigits_cons, valueOfDigits_cons, ← hlength] at hvalue
    rw [← hlength] at hlt'
    -- the first digits are the quotients by the power of ten, and the others make the rests
    have hfirst : c.toNat - '0'.toNat = c'.toNat - '0'.toNat := by
      have hdiv := congrArg (· / 10 ^ cs.length) hvalue
      simpa [Nat.mul_add_div (Nat.pow_pos (n := cs.length) (show 0 < 10 by decide)),
        Nat.div_eq_of_lt hlt, Nat.div_eq_of_lt hlt'] using hdiv
    have hrest : valueOfDigits cs = valueOfDigits cs' := by
      rw [hfirst] at hvalue
      exact Nat.add_left_cancel hvalue
    have hchar : c = c' := by
      rw [← Char.ofNat_toNat c, (exists_of_isDigit hc).1, hfirst, ← (exists_of_isDigit hc').1,
        Char.ofNat_toNat]
    rw [hchar, ih hlength hcs hcs' hrest]

theorem length_toDigits_le {n k : Nat} (hk : 0 < k) :
    (Nat.toDigits 10 n).length ≤ k ↔ n < 10 ^ k :=
  Nat.length_toDigits_le_iff (by decide) hk

/-- A numeral starts with a zero only if it is that of zero. -/
theorem head?_toDigits_ne {n : Nat} (h : n ≠ 0) : (Nat.toDigits 10 n).head? ≠ some '0' := by
  intro hhead
  obtain ⟨cs, hcs⟩ := List.head?_eq_some_iff.1 hhead
  have hdigits : ∀ c ∈ cs, c.isDigit = true := fun c hc =>
    Nat.isDigit_of_mem_toDigits (b := 10) (n := n) (by decide) (by decide)
      (hcs ▸ List.mem_cons_of_mem _ hc)
  have hvalue := valueOfDigits_toDigits n
  rw [hcs, valueOfDigits_cons, Nat.sub_self, Nat.mul_zero, Nat.zero_add] at hvalue
  have hlt : n < 10 ^ cs.length := hvalue ▸ valueOfDigits_lt hdigits
  rcases Nat.eq_zero_or_pos cs.length with hnil | hpos
  · rw [hnil] at hlt
    omega
  · have hlength := (length_toDigits_le hpos).2 hlt
    rw [hcs, List.length_cons] at hlength
    omega

end Decimal

namespace Binary64

open Decimal

/-- Digits without a zero at either end. -/
structure Digits.Stripped (g : Digits) : Prop extends g.Proper where
  head?_ne : g.chars.head? ≠ some '0'
  getLast?_ne : g.chars.getLast? ≠ some '0'

namespace Digits

variable {g g' : Digits}

theorem toRat_value (g : Digits) :
    g.value.toRat = valueOfDigits g.chars * 10 ^ (g.point - g.chars.length) := rfl

theorem stripped_ofDecimal {d : Decimal} (h : d.digits ≠ 0) : (ofDecimal d).Stripped where
  toProper := proper_ofDecimal h
  head?_ne := by
    obtain ⟨k, hdigits, -⟩ := exists_zeros d
    have hhead := head?_toDigits_ne h
    rwa [hdigits, List.head?_append_of_ne_nil _ (proper_ofDecimal h).chars_ne_nil] at hhead
  getLast?_ne := by
    rw [ofDecimal, List.getLast?_reverse]
    intro hhead
    simpa using stops_dropWhile (p := (· == '0')) _ _ hhead

namespace Stripped

theorem length_pos (h : g.Stripped) : 0 < g.chars.length :=
  List.length_pos_of_ne_nil h.chars_ne_nil

theorem value_lt (h : g.Stripped) : g.value.digits < 10 ^ g.chars.length :=
  valueOfDigits_lt h.isDigit

theorem le_value (h : g.Stripped) : 10 ^ (g.chars.length - 1) ≤ g.value.digits := by
  obtain ⟨⟨hne, hdigit⟩, hhead, -⟩ := h
  rw [value]
  cases hchars : g.chars with
  | nil => exact absurd hchars hne
  | cons c cs =>
    rw [hchars] at hdigit hhead
    have hc := (exists_of_isDigit (hdigit c List.mem_cons_self)).1
    have hpos : 1 ≤ c.toNat - '0'.toNat := by
      refine Nat.one_le_iff_ne_zero.2 fun hzero => hhead (congrArg some ?_)
      rw [← Char.ofNat_toNat c, hc, hzero]
      rfl
    rw [valueOfDigits_cons, List.length_cons, Nat.add_sub_cancel]
    nlinarith [Nat.pow_pos (n := cs.length) (show 0 < 10 by decide)]

theorem not_ten_dvd_value (h : g.Stripped) : ¬ 10 ∣ g.value.digits := by
  intro hdvd
  have hne := h.chars_ne_nil
  have hlast := (exists_of_isDigit (h.isDigit _ (List.getLast_mem hne))).1
  have hbound := (exists_of_isDigit (h.isDigit _ (List.getLast_mem hne))).2
  rw [value, ← List.dropLast_append_getLast hne] at hdvd
  change 10 ∣ Nat.ofDigitChars 10 (g.chars.dropLast ++ [g.chars.getLast hne]) 0 at hdvd
  rw [Nat.ofDigitChars_append, Nat.ofDigitChars_cons, Nat.ofDigitChars_nil] at hdvd
  refine h.getLast?_ne ?_
  rw [List.getLast?_eq_some_getLast hne, ← Char.ofNat_toNat (g.chars.getLast hne), hlast,
    show (g.chars.getLast hne).toNat - '0'.toNat = 0 by omega]
  rfl

/-- **The point tells the powers of ten** between which the value lies. -/
theorem toRat_bounds (h : g.Stripped) :
    10 ^ (g.point - 1) ≤ g.value.toRat ∧ g.value.toRat < 10 ^ g.point := by
  have hpos := h.length_pos
  have hscale : (0 : ℚ) < 10 ^ (g.point - g.chars.length) := by positivity
  have hlower : ((10 ^ (g.chars.length - 1) : ℕ) : ℚ) ≤ valueOfDigits g.chars :=
    Nat.cast_le.2 h.le_value
  have hupper : (valueOfDigits g.chars : ℚ) < (10 ^ g.chars.length : ℕ) :=
    Nat.cast_lt.2 h.value_lt
  push_cast at hlower hupper
  rw [toRat_value]
  constructor
  · calc
      (10 : ℚ) ^ (g.point - 1) =
          10 ^ (g.chars.length - 1) * 10 ^ (g.point - g.chars.length) := by
        rw [← zpow_natCast, ← zpow_add₀ (by norm_num)]
        congr 1
        omega
      _ ≤ _ := mul_le_mul_of_nonneg_right hlower hscale.le
  · calc
      _ < (10 : ℚ) ^ g.chars.length * 10 ^ (g.point - g.chars.length) :=
        mul_lt_mul_of_pos_right hupper hscale
      _ = 10 ^ g.point := by
        rw [← zpow_natCast, ← zpow_add₀ (by norm_num)]
        congr 1
        omega

theorem point_le (h : g.Stripped) (h' : g'.Stripped) (hvalue : g.value.toRat ≤ g'.value.toRat) :
    g.point ≤ g'.point := by
  have hlt := h.toRat_bounds.1.trans_lt (hvalue.trans_lt h'.toRat_bounds.2)
  have := (zpow_lt_zpow_iff_right₀ (show (1 : ℚ) < 10 by norm_num)).1 hlt
  omega

theorem point_eq_of_toRat_eq (h : g.Stripped) (h' : g'.Stripped)
    (hvalue : g.value.toRat = g'.value.toRat) : g.point = g'.point :=
  le_antisymm (h.point_le h' hvalue.le) (h'.point_le h hvalue.ge)

theorem length_le_of_toRat_eq (h : g.Stripped) (h' : g'.Stripped)
    (hvalue : g.value.toRat = g'.value.toRat) : g.chars.length ≤ g'.chars.length := by
  have hpoint := h.point_eq_of_toRat_eq h' hvalue
  refine Nat.le_of_not_lt fun hlt => ?_
  obtain ⟨k, hk⟩ := Nat.exists_eq_add_of_lt hlt
  have hscale : (10 : ℚ) ^ (g.point - g.chars.length) ≠ 0 := by positivity
  have hexponent : g'.point - g'.chars.length = (k + 1 : Nat) + (g.point - g.chars.length) := by
    omega
  rw [toRat_value, toRat_value, hexponent, zpow_add₀ (by norm_num), zpow_natCast, ← mul_assoc]
    at hvalue
  have hdigits : valueOfDigits g.chars = valueOfDigits g'.chars * 10 ^ (k + 1) := by
    exact_mod_cast mul_right_cancel₀ hscale hvalue
  refine h.not_ten_dvd_value ?_
  rw [value, hdigits]
  exact Dvd.dvd.mul_left (dvd_pow_self 10 (Nat.succ_ne_zero k)) _

/-- **Stripped digits are a normal form**: those with the same value are the same. -/
theorem eq_of_toRat_eq (h : g.Stripped) (h' : g'.Stripped)
    (hvalue : g.value.toRat = g'.value.toRat) : g = g' := by
  have hpoint := h.point_eq_of_toRat_eq h' hvalue
  have hlength : g.chars.length = g'.chars.length :=
    Nat.le_antisymm (h.length_le_of_toRat_eq h' hvalue) (h'.length_le_of_toRat_eq h hvalue.symm)
  have hscale : (10 : ℚ) ^ (g'.point - g'.chars.length) ≠ 0 := by positivity
  rw [toRat_value, toRat_value, hpoint, hlength] at hvalue
  have hdigits : valueOfDigits g.chars = valueOfDigits g'.chars := by
    exact_mod_cast mul_right_cancel₀ hscale hvalue
  obtain ⟨chars, point⟩ := g
  obtain ⟨chars', point'⟩ := g'
  obtain rfl : point = point' := hpoint
  obtain rfl : chars = chars' := valueOfDigits_inj hlength h.isDigit h'.isDigit hdigits
  rfl

end Stripped

theorem toRat_value_ofDecimal (d : Decimal) : (ofDecimal d).value.toRat = d.toRat := by
  obtain ⟨k, hdigits, hpoint⟩ := exists_zeros d
  have hnumeral := valueOfDigits_toDigits d.digits
  rw [hdigits, valueOfDigits_append_zeros] at hnumeral
  rw [toRat_value, toRat, hpoint, ← hnumeral, add_assoc, add_sub_cancel_left,
    zpow_add₀ (by norm_num), zpow_natCast, ← mul_assoc]
  push_cast
  rfl

/-- A number up to `10 ^ n` has at most `n` digits, without the zeros at the end. -/
theorem length_ofDecimal_le {d : Decimal} {n : Nat} (h : d.digits ≠ 0) (hn : 0 < n)
    (hle : d.digits ≤ 10 ^ n) : (ofDecimal d).chars.length ≤ n := by
  obtain ⟨k, hdigits, -⟩ := exists_zeros d
  have hstripped := stripped_ofDecimal h
  have hvalue : (ofDecimal d).value.digits * 10 ^ k = d.digits := by
    rw [← valueOfDigits_toDigits d.digits, hdigits, valueOfDigits_append_zeros]
    rfl
  have hlower : 10 ^ ((ofDecimal d).chars.length - 1 + k) ≤ 10 ^ n := by
    rw [Nat.pow_add]
    exact (Nat.mul_le_mul_right _ hstripped.le_value).trans (hvalue.trans_le hle)
  have hpower := (Nat.pow_le_pow_iff_right (by decide)).1 hlower
  refine Nat.le_of_not_lt fun hlt => ?_
  -- with a digit more there are no zeros at the end, and the number is the power of ten
  obtain rfl : k = 0 := by omega
  have hlength : (ofDecimal d).chars.length - 1 = n := by omega
  have hlower := hstripped.le_value
  rw [hlength] at hlower
  refine hstripped.not_ten_dvd_value ?_
  rw [show (ofDecimal d).value.digits = 10 ^ n by omega]
  exact dvd_pow_self 10 hn.ne'

end Digits

/-! ## Neighbours on a grid -/

/-- The spacing of the finest grid. -/
def gridUnit : ℚ := 10 ^ (-1074 : ℤ)

theorem gridUnit_pos : 0 < gridUnit := zpow_pos (by norm_num) _

theorem ten_zpow_eq_mul_gridUnit (step : Nat) :
    (10 : ℚ) ^ ((step : Int) - 1074) = 10 ^ step * gridUnit := by
  rw [gridUnit, sub_eq_add_neg, zpow_add₀ (by norm_num), zpow_natCast]

/-- A decimal on the grid with spacing `10 ^ step`, in units of the finest one. -/
theorem toRat_grid (n step : Nat) :
    (⟨n, (step : Int) - 1074⟩ : Decimal).toRat = (n * 10 ^ step : Nat) * gridUnit := by
  rw [toRat, ten_zpow_eq_mul_gridUnit, ← mul_assoc]
  push_cast
  rfl

theorem toRat_exact (exact : Nat) : (⟨exact, -1074⟩ : Decimal).toRat = exact * gridUnit := by
  rw [toRat, gridUnit]

/-- The lower neighbour of an exact expansion. -/
def below (exact step : Nat) : Decimal := ⟨exact / 10 ^ step, (step : Int) - 1074⟩

/-- The upper neighbour of an exact expansion. -/
def above (exact step : Nat) : Decimal := ⟨exact / 10 ^ step + 1, (step : Int) - 1074⟩

section

variable {rank exact step n : Nat} {d : Decimal}

theorem neighbour?_eq (rank exact step : Nat) : neighbour? rank exact step =
    if (below exact step).rank = rank then
      if (above exact step).rank = rank ∧ 10 ^ step ≤ 2 * (exact % 10 ^ step) then
        some (above exact step)
      else some (below exact step)
    else if (above exact step).rank = rank then some (above exact step)
    else none := rfl

/-- How far the lower neighbour is away. -/
theorem toRat_below (exact step : Nat) :
    (below exact step).toRat = exact * gridUnit - (exact % 10 ^ step : Nat) * gridUnit := by
  have hexact : ((exact / 10 ^ step * 10 ^ step + exact % 10 ^ step : Nat) : ℚ) = exact := by
    rw [Nat.div_add_mod']
  rw [below, toRat_grid, ← hexact]
  push_cast
  ring

/-- How far the upper neighbour is away. -/
theorem toRat_above (exact step : Nat) : (above exact step).toRat =
    exact * gridUnit + (10 ^ step - (exact % 10 ^ step : Nat)) * gridUnit := by
  have hexact : ((exact / 10 ^ step * 10 ^ step + exact % 10 ^ step : Nat) : ℚ) = exact := by
    rw [Nat.div_add_mod']
  rw [above, toRat_grid, ← hexact]
  push_cast
  ring

theorem toRat_below_le (exact step : Nat) : (below exact step).toRat ≤ exact * gridUnit := by
  rw [toRat_below]
  have := mul_nonneg (Nat.cast_nonneg (α := ℚ) (exact % 10 ^ step)) gridUnit_pos.le
  linarith

theorem lt_toRat_above (exact step : Nat) : exact * gridUnit < (above exact step).toRat := by
  have hlt : ((exact % 10 ^ step : Nat) : ℚ) < 10 ^ step := by
    exact_mod_cast Nat.mod_lt exact (Nat.pow_pos (by decide))
  rw [toRat_above]
  have := mul_pos (sub_pos.2 hlt) gridUnit_pos
  linarith

theorem ten_pow_pred_digitCount_le (hexact : exact ≠ 0) : 10 ^ (digitCount exact - 1) ≤ exact := by
  rcases Nat.eq_zero_or_pos (digitCount exact - 1) with hzero | hpos
  · rw [hzero]
    omega
  · refine Nat.le_of_not_lt fun hlt => ?_
    have hle := (length_toDigits_le hpos).2 hlt
    rw [digitCount] at *
    omega

theorem lt_ten_pow_digitCount (exact : Nat) : exact < 10 ^ digitCount exact :=
  (length_toDigits_le Nat.length_toDigits_pos).1 (Nat.le_refl _)

/-- **Nothing with at most `n` digits lies between the neighbours** on the grid with `n` digits. -/
theorem le_below_or_above_le (hexact : exact ≠ 0) (hn : 0 < n) (hcount : n ≤ digitCount exact)
    (hdigits : d.digits < 10 ^ n) :
    d.toRat ≤ (below exact (digitCount exact - n)).toRat ∨
      (above exact (digitCount exact - n)).toRat ≤ d.toRat := by
  obtain ⟨digits, exponent⟩ := d
  obtain ⟨step, hstep⟩ : ∃ step, digitCount exact - n = step := ⟨_, rfl⟩
  rw [hstep, below, above, toRat_grid, toRat_grid]
  by_cases hgrid : (step : Int) - 1074 ≤ exponent
  · -- the decimal is on the grid
    obtain ⟨k, hk⟩ := Int.eq_ofNat_of_zero_le (Int.sub_nonneg.2 hgrid)
    obtain rfl : exponent = ((step + k : Nat) : Int) - 1074 := by
      push_cast
      omega
    rw [toRat_grid, Nat.pow_add, Nat.mul_comm (10 ^ step), ← Nat.mul_assoc]
    rcases Nat.lt_or_ge (exact / 10 ^ step) (digits * 10 ^ k) with hlt | hle
    · exact .inr (mul_le_mul_of_nonneg_right
        (Nat.cast_le.2 (Nat.mul_le_mul_right _ hlt)) gridUnit_pos.le)
    · exact .inl (mul_le_mul_of_nonneg_right
        (Nat.cast_le.2 (Nat.mul_le_mul_right _ hle)) gridUnit_pos.le)
  · -- the decimal is finer than the grid, and so below all numbers with `n` digits on it
    refine .inl ?_
    have hquotient : 10 ^ (n - 1) ≤ exact / 10 ^ step := by
      refine (Nat.le_div_iff_mul_le (Nat.pow_pos (by decide))).2 ?_
      rw [← Nat.pow_add, ← hstep]
      refine Nat.le_trans (Nat.le_of_eq ?_) (ten_pow_pred_digitCount_le hexact)
      congr 1
      omega
    have hfiner : exponent ≤ (step : Int) - 1074 - 1 := Int.le_sub_one_of_lt (not_le.1 hgrid)
    have hlt : (digits : ℚ) ≤ (10 ^ n : Nat) := Nat.cast_le.2 (Nat.le_of_lt hdigits)
    calc
      (⟨digits, exponent⟩ : Decimal).toRat ≤ (10 ^ n : Nat) * 10 ^ ((step : Int) - 1074 - 1) :=
        mul_le_mul hlt (zpow_le_zpow_right₀ (by norm_num) hfiner) (by positivity) (by positivity)
      _ = (10 ^ (n - 1) * 10 ^ step : Nat) * gridUnit := by
        obtain ⟨m, rfl⟩ := Nat.exists_eq_add_of_lt hn
        rw [zpow_sub_one₀ (by norm_num), ten_zpow_eq_mul_gridUnit, Nat.zero_add, Nat.pow_succ,
          Nat.add_sub_cancel]
        push_cast
        ring
      _ ≤ _ := mul_le_mul_of_nonneg_right (Nat.cast_le.2 (Nat.mul_le_mul_right _ hquotient))
        gridUnit_pos.le

/-! ## The search -/

/-- **A neighbour reads back** if a decimal with as many digits does, on the same side. -/
theorem rank_neighbour (hfinite : rank < infinityRank) (hexact : exactDigits rank = exact)
    (hne : exact ≠ 0) (hn : 0 < n) (hcount : n ≤ digitCount exact) (hdigits : d.digits < 10 ^ n)
    (hrank : d.rank = rank) :
    (d.toRat ≤ (below exact (digitCount exact - n)).toRat ∧
        (below exact (digitCount exact - n)).rank = rank) ∨
      ((above exact (digitCount exact - n)).toRat ≤ d.toRat ∧
        (above exact (digitCount exact - n)).rank = rank) := by
  have hself := rank_exactDigits hfinite
  rw [hexact] at hself
  rcases le_below_or_above_le hne hn hcount hdigits with hle | hle
  · have hbetween := rank_between hle ((toRat_below_le ..).trans (toRat_exact exact).ge)
      (hrank.trans hself.symm)
    exact .inl ⟨hle, hbetween.trans hself⟩
  · have hbetween := rank_between ((toRat_exact exact).le.trans (lt_toRat_above ..).le) hle
      (hself.trans hrank.symm)
    exact .inr ⟨hle, hbetween.trans hrank⟩

/-- What the search takes on a grid: the nearer neighbour, the upper one of two as near. -/
theorem neighbour?_cases (h : neighbour? rank exact step = some d) :
    (d = above exact step ∧
        ((below exact step).rank = rank → 10 ^ step ≤ 2 * (exact % 10 ^ step))) ∨
      (d = below exact step ∧
        ((above exact step).rank = rank → 2 * (exact % 10 ^ step) < 10 ^ step)) := by
  rw [neighbour?_eq] at h
  split_ifs at h with hbelow hboth habove
  · cases h
    exact .inl ⟨rfl, fun _ => hboth.2⟩
  · cases h
    exact .inr ⟨rfl, fun habove => Nat.lt_of_not_le fun hle => hboth ⟨habove, hle⟩⟩
  · cases h
    exact .inl ⟨rfl, fun h => absurd h hbelow⟩

/-- **What the search takes is nearest** of all that lies beyond a neighbour that reads back. -/
theorem neighbour?_nearest (h : neighbour? rank exact step = some d) {other : ℚ}
    (hother : (other ≤ (below exact step).toRat ∧ (below exact step).rank = rank) ∨
      ((above exact step).toRat ≤ other ∧ (above exact step).rank = rank)) :
    |d.toRat - exact * gridUnit| ≤ |other - exact * gridUnit| ∧
      (|other - exact * gridUnit| = |d.toRat - exact * gridUnit| → other ≤ d.toRat) := by
  have hunit := gridUnit_pos
  have hbelow := toRat_below exact step
  have habove := toRat_above exact step
  have hle := toRat_below_le exact step
  have hlt := lt_toRat_above exact step
  generalize (exact : ℚ) * gridUnit = value at *
  rcases neighbour?_cases h with ⟨rfl, hnear⟩ | ⟨rfl, hnear⟩
  · rcases hother with ⟨hother, hrank⟩ | ⟨hother, -⟩
    · have hhalf : (10 : ℚ) ^ step - (exact % 10 ^ step : Nat) ≤ (exact % 10 ^ step : Nat) := by
        have : ((10 ^ step : Nat) : ℚ) ≤ (2 * (exact % 10 ^ step) : Nat) :=
          Nat.cast_le.2 (hnear hrank)
        push_cast at this ⊢
        linarith
      have := mul_le_mul_of_nonneg_right hhalf hunit.le
      rw [abs_of_pos (sub_pos.2 hlt), abs_of_nonpos (sub_nonpos.2 (hother.trans hle))]
      exact ⟨by linarith, fun _ => (hother.trans hle).trans hlt.le⟩
    · rw [abs_of_pos (sub_pos.2 hlt), abs_of_pos (sub_pos.2 (hlt.trans_le hother))]
      exact ⟨by linarith, fun _ => by linarith⟩
  · rcases hother with ⟨hother, -⟩ | ⟨hother, hrank⟩
    · rw [abs_of_nonpos (sub_nonpos.2 hle), abs_of_nonpos (sub_nonpos.2 (hother.trans hle))]
      exact ⟨by linarith, fun _ => hother⟩
    · have hhalf : ((exact % 10 ^ step : Nat) : ℚ) < 10 ^ step - (exact % 10 ^ step : Nat) := by
        have : ((2 * (exact % 10 ^ step) : Nat) : ℚ) < (10 ^ step : Nat) :=
          Nat.cast_lt.2 (hnear hrank)
        push_cast at this ⊢
        linarith
      have := mul_lt_mul_of_pos_right hhalf hunit
      rw [abs_of_nonpos (sub_nonpos.2 hle), abs_of_pos (sub_pos.2 (hlt.trans_le hother))]
      exact ⟨by linarith, fun heq => by linarith⟩

/-- **The search takes the first grid** on which a neighbour reads back. -/
theorem exists_neighbour?_eq_shortest (h : rank < infinityRank) :
    ∃ n, 0 < n ∧ n ≤ digitCount (exactDigits rank) ∧
      neighbour? rank (exactDigits rank) (digitCount (exactDigits rank) - n) =
        some (shortest rank) ∧
      ∀ m, 0 < m → m < n →
        neighbour? rank (exactDigits rank) (digitCount (exactDigits rank) - m) = none := by
  obtain ⟨exact, hexact⟩ : ∃ exact, exactDigits rank = exact := ⟨_, rfl⟩
  have hself := rank_exactDigits h
  simp only [shortest, hexact] at hself ⊢
  have hcount : 0 < digitCount exact := Nat.length_toDigits_pos
  cases hhit : (List.range (digitCount exact)).findSome? fun i =>
      neighbour? rank exact (digitCount exact - 1 - i) with
  | none =>
    -- the lower neighbour on the last grid is the exact expansion
    have hlast := List.findSome?_eq_none_iff.1 hhit (digitCount exact - 1)
      (List.mem_range.2 (Nat.sub_lt hcount Nat.one_pos))
    have hbelow : (below exact 0).rank = rank := by
      rwa [below, Nat.pow_zero, Nat.div_one]
    rw [Nat.sub_self, neighbour?_eq, if_pos hbelow] at hlast
    split at hlast <;> cases hlast
  | some found =>
    obtain ⟨before, i, after, hrange, hfound, hbefore⟩ := List.findSome?_eq_some_iff.1 hhit
    rw [List.range_eq_range', List.range'_eq_append_iff] at hrange
    obtain ⟨k, hk, rfl, hafter⟩ := hrange
    obtain ⟨rfl, hpos, -⟩ := List.range'_eq_cons_iff.1 hafter.symm
    rw [Nat.mul_one, Nat.zero_add, Nat.sub_sub, Nat.add_comm] at hfound
    refine ⟨k + 1, Nat.succ_pos k, by omega, hfound, fun m hm hlt => ?_⟩
    have hnone := hbefore (m - 1) (List.mem_range'_1.2 (by omega))
    rwa [Nat.sub_sub, Nat.add_sub_cancel' hm] at hnone

/-- What lies on a grid has at most as many digits as the grid, or is the power of ten after. -/
theorem digits_le_of_neighbour? (hcount : n ≤ digitCount exact)
    (h : neighbour? rank exact (digitCount exact - n) = some d) : d.digits ≤ 10 ^ n := by
  have hlt : exact / 10 ^ (digitCount exact - n) < 10 ^ n := by
    rw [Nat.div_lt_iff_lt_mul (Nat.pow_pos (by decide)), ← Nat.pow_add, Nat.add_sub_cancel' hcount]
    exact lt_ten_pow_digitCount exact
  rcases neighbour?_cases h with ⟨rfl, -⟩ | ⟨rfl, -⟩
  · exact hlt
  · exact hlt.le

end

/-! ## The shortest digits -/

/-- The digits that a magnitude is written with: stripped ones that read back, as few as there are,
the nearest of as few, and the largest of as near. -/
structure Digits.IsShortest (g : Digits) (rank : Nat) : Prop where
  stripped : g.Stripped
  rank_value : g.value.rank = rank
  fewest : ∀ {other : Digits}, other.Stripped → other.value.rank = rank →
    g.chars.length ≤ other.chars.length
  nearest : ∀ {other : Digits}, other.Stripped → other.value.rank = rank →
    other.chars.length = g.chars.length →
    |g.value.toRat - magnitude rank| ≤ |other.value.toRat - magnitude rank|
  largest : ∀ {other : Digits}, other.Stripped → other.value.rank = rank →
    other.chars.length = g.chars.length →
    |other.value.toRat - magnitude rank| = |g.value.toRat - magnitude rank| →
    other.value.toRat ≤ g.value.toRat

variable {rank : Nat} {g g' : Digits}

/-- There is at most one way to write a magnitude. -/
theorem Digits.IsShortest.unique (h : g.IsShortest rank) (h' : g'.IsShortest rank) : g = g' := by
  have hlength : g.chars.length = g'.chars.length :=
    Nat.le_antisymm (h.fewest h'.stripped h'.rank_value) (h'.fewest h.stripped h.rank_value)
  have hdistance : |g.value.toRat - magnitude rank| = |g'.value.toRat - magnitude rank| :=
    le_antisymm (h.nearest h'.stripped h'.rank_value hlength.symm)
      (h'.nearest h.stripped h.rank_value hlength)
  have hvalue : g.value.toRat = g'.value.toRat :=
    le_antisymm (h'.largest h.stripped h.rank_value hlength hdistance)
      (h.largest h'.stripped h'.rank_value hlength.symm hdistance.symm)
  exact h.stripped.eq_of_toRat_eq h'.stripped hvalue

theorem digits_ne_zero_of_rank_eq {d : Decimal} (hzero : rank ≠ 0) (h : d.rank = rank) :
    d.digits ≠ 0 := by
  intro hdigits
  refine hzero ?_
  rw [← h, Decimal.rank, if_pos hdigits]

/-- **The digits of a magnitude are the shortest** that read back. -/
theorem isShortest_digitsOfRank (hzero : rank ≠ 0) (h : rank < infinityRank) :
    (digitsOfRank rank).IsShortest rank := by
  have hdigits := digits_ne_zero_of_rank_eq hzero (rank_shortest h)
  have hne := digits_ne_zero_of_rank_eq hzero (rank_exactDigits h)
  have hvalue : magnitude rank = exactDigits rank * gridUnit := by
    rw [← toRat_exactDigits, toRat_exact]
  obtain ⟨n, hn, hcount, hhit, hfirst⟩ := exists_neighbour?_eq_shortest h
  obtain ⟨exact, hexact⟩ : ∃ exact, exactDigits rank = exact := ⟨_, rfl⟩
  rw [hexact] at hne hvalue hcount hhit hfirst
  have hlength : (digitsOfRank rank).chars.length ≤ n :=
    Digits.length_ofDecimal_le hdigits hn (digits_le_of_neighbour? hcount hhit)
  have hfewest {other : Digits} (hother : other.Stripped) (hrank : other.value.rank = rank) :
      n ≤ other.chars.length := by
    refine Nat.le_of_not_lt fun hlt => ?_
    have hnone := hfirst _ hother.length_pos hlt
    have hread := rank_neighbour h hexact hne hother.length_pos (hlt.le.trans hcount)
      hother.value_lt hrank
    rw [neighbour?_eq] at hnone
    split_ifs at hnone with hbelow hboth habove
    exact hread.elim (fun hread => hbelow hread.2) fun hread => habove hread.2
  have hnearest {other : Digits} (hother : other.Stripped) (hrank : other.value.rank = rank)
      (heq : other.chars.length = (digitsOfRank rank).chars.length) :=
    neighbour?_nearest hhit (rank_neighbour h hexact hne hn hcount
      (hother.value_lt.trans_le (Nat.pow_le_pow_right (by decide) (heq.trans_le hlength))) hrank)
  have htoRat : (digitsOfRank rank).value.toRat = (shortest rank).toRat :=
    Digits.toRat_value_ofDecimal _
  exact {
    stripped := Digits.stripped_ofDecimal hdigits
    rank_value := rank_value_digitsOfRank h
    fewest := fun hother hrank => hlength.trans (hfewest hother hrank)
    nearest := fun hother hrank heq => by
      rw [htoRat, hvalue]
      exact (hnearest hother hrank heq).1
    largest := fun hother hrank heq => by
      rw [htoRat, hvalue]
      exact (hnearest hother hrank heq).2 }

/-- **The shortest digits** of a magnitude are those it is written with, and no others. -/
theorem isShortest_iff (hzero : rank ≠ 0) (h : rank < infinityRank) :
    g.IsShortest rank ↔ g = digitsOfRank rank := by
  have hself := isShortest_digitsOfRank hzero h
  constructor
  · exact fun hg => hg.unique hself
  · rintro rfl
    exact hself

end Binary64

end Eligibility
