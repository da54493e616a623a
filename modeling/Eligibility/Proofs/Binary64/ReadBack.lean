import Eligibility.Facts
import Eligibility.Proofs.Binary64.Rounding
import Eligibility.Proofs.Text.Split
/-!
# Numbers read back from their written forms

Digits stand for a decimal (`Digits.value`), which `Digits.ofDecimal` leaves at its rank while it
strips the zeros at the end. Both ways to write digits are read as a decimal of that rank
(`readMagnitude?_positional`, `readMagnitude?_scientific`): the point moves between the digits and
the exponent. Since the digits of a number are the shortest of its rank, the number is read from its
written form (`read?_display`), unless it is a zero, whose sign is not written, or no number at all.

No character of the written form of a finite number is blank, so that taking the blanks off both
ends keeps it as it is (`numberOfText?_display`).
-/

namespace Eligibility

open Text

namespace Decimal

theorem valueOfDigits_toDigits (n : Nat) : valueOfDigits (Nat.toDigits 10 n) = n :=
  Nat.ofDigitChars_ten_toDigits

theorem valueOfDigits_append_zeros (cs : List Char) (k : Nat) :
    valueOfDigits (cs ++ List.replicate k '0') = valueOfDigits cs * 10 ^ k := by
  rw [valueOfDigits, Nat.ofDigitChars_append, Nat.ofDigitChars_replicate_zero, Nat.mul_comm]
  rfl

theorem valueOfDigits_zeros_append (cs : List Char) (k : Nat) :
    valueOfDigits (List.replicate k '0' ++ cs) = valueOfDigits cs := by
  rw [valueOfDigits, Nat.ofDigitChars_append, Nat.ofDigitChars_replicate_zero, Nat.mul_zero]
  rfl

end Decimal

namespace Binary64

open Decimal

/-! ## The value of digits -/

/-- The decimal that digits stand for. -/
def Digits.value (g : Digits) : Decimal :=
  ⟨valueOfDigits g.chars, g.point - g.chars.length⟩

/-- There are digits, and all of them are decimal ones. -/
structure Digits.Proper (g : Digits) : Prop where
  chars_ne_nil : g.chars ≠ []
  isDigit : ∀ c ∈ g.chars, c.isDigit = true

/-- What `Digits.ofDecimal` strips from a numeral is zeros, which the point makes up for. -/
theorem Digits.exists_zeros (d : Decimal) : ∃ k,
    Nat.toDigits 10 d.digits = (ofDecimal d).chars ++ List.replicate k '0' ∧
      (ofDecimal d).point = (ofDecimal d).chars.length + k + d.exponent := by
  obtain ⟨zeros, hstripped⟩ :
      ∃ zeros, zeros = (Nat.toDigits 10 d.digits).reverse.takeWhile (· == '0') := ⟨_, rfl⟩
  have hzeros : zeros.reverse = List.replicate zeros.length '0' := by
    refine List.eq_replicate_iff.2 ⟨List.length_reverse, fun c hc => ?_⟩
    rw [List.mem_reverse, hstripped] at hc
    simpa using mem_takeWhile c hc
  have hsplit : Nat.toDigits 10 d.digits =
      (ofDecimal d).chars ++ List.replicate zeros.length '0' := by
    rw [← hzeros, hstripped, ofDecimal, ← List.reverse_append, List.takeWhile_append_dropWhile,
      List.reverse_reverse]
  have hlength := congrArg List.length hsplit
  rw [List.length_append, List.length_replicate] at hlength
  refine ⟨zeros.length, hsplit, ?_⟩
  rw [← Int.natCast_add, ← hlength]
  rfl

theorem Digits.rank_value_ofDecimal (d : Decimal) : (ofDecimal d).value.rank = d.rank := by
  obtain ⟨k, hdigits, hpoint⟩ := exists_zeros d
  have hnumeral : d.digits = valueOfDigits (ofDecimal d).chars * 10 ^ k := by
    rw [← valueOfDigits_append_zeros, ← hdigits, valueOfDigits_toDigits]
  calc
    (ofDecimal d).value.rank =
        (⟨valueOfDigits (ofDecimal d).chars, d.exponent + k⟩ : Decimal).rank := by
      rw [value, hpoint]
      congr 2
      omega
    _ = d.rank := by rw [← rank_mul_ten_pow, ← hnumeral]

theorem Digits.proper_ofDecimal {d : Decimal} (h : d.digits ≠ 0) : (ofDecimal d).Proper := by
  obtain ⟨k, hdigits, -⟩ := exists_zeros d
  constructor
  · intro hnil
    have hvalue := valueOfDigits_toDigits d.digits
    rw [hdigits, hnil, valueOfDigits_append_zeros] at hvalue
    exact h (hvalue.symm.trans (Nat.zero_mul _))
  · intro c hc
    refine Nat.isDigit_of_mem_toDigits (b := 10) (n := d.digits) (by decide) (by decide) ?_
    rw [hdigits]
    exact List.mem_append_left _ hc

theorem isDigit_of_mem_zeros (k : Nat) : ∀ c ∈ List.replicate k '0', c.isDigit = true := by
  intro c hc
  rw [List.eq_of_mem_replicate hc]
  decide

/-! ## The digits of a number -/

variable {rank : Nat}

theorem rank_value_digitsOfRank (h : rank < infinityRank) :
    (digitsOfRank rank).value.rank = rank := by
  rw [digitsOfRank, Digits.rank_value_ofDecimal, rank_shortest h]

theorem proper_digitsOfRank (hzero : rank ≠ 0) (h : rank < infinityRank) :
    (digitsOfRank rank).Proper := by
  refine Digits.proper_ofDecimal fun hdigits => hzero ?_
  rw [← rank_shortest h, Decimal.rank, if_pos hdigits]

/-! ## Reading what is written -/

variable {whole fraction rest : List Char} {g : Digits}

theorem readMagnitude?_whole (hne : whole ≠ []) (hwhole : ∀ c ∈ whole, c.isDigit = true)
    (hrest : Stops Char.isDigit rest) (hpoint : '.' ∉ rest.head?) :
    readMagnitude? (whole ++ rest) = (readScale? rest).map (ofParts whole []) := by
  rw [readMagnitude?, hrest.takeWhile_append hwhole, hrest.dropWhile_append hwhole]
  rcases rest with _ | ⟨c, rest⟩
  · simp [hne]
  · have hc : c ≠ '.' := by
      rintro rfl
      exact hpoint rfl
    simp [hne, hc]

theorem readMagnitude?_point (hne : whole ≠ []) (hwhole : ∀ c ∈ whole, c.isDigit = true)
    (hfraction : ∀ c ∈ fraction, c.isDigit = true) (hrest : Stops Char.isDigit rest) :
    readMagnitude? (whole ++ '.' :: (fraction ++ rest)) =
      (readScale? rest).map (ofParts whole fraction) := by
  have hpoint : Stops Char.isDigit ('.' :: (fraction ++ rest)) := stops_cons (by decide)
  rw [readMagnitude?, hpoint.takeWhile_append hwhole, hpoint.dropWhile_append hwhole]
  simp [hrest.takeWhile_append hfraction, hrest.dropWhile_append hfraction, hne]

theorem readMagnitude?_integer (hne : whole ≠ []) (hwhole : ∀ c ∈ whole, c.isDigit = true) :
    readMagnitude? whole = some ⟨valueOfDigits whole, 0⟩ := by
  have hread := readMagnitude?_whole hne hwhole stops_nil (by simp)
  rw [List.append_nil] at hread
  rw [hread, readScale?, Option.map_some, ofParts, List.append_nil]
  rfl

theorem readMagnitude?_fraction (hne : whole ≠ []) (hwhole : ∀ c ∈ whole, c.isDigit = true)
    (hfraction : ∀ c ∈ fraction, c.isDigit = true) :
    readMagnitude? (whole ++ '.' :: fraction) =
      some ⟨valueOfDigits (whole ++ fraction), -fraction.length⟩ := by
  have hread := readMagnitude?_point hne hwhole hfraction stops_nil
  rw [List.append_nil] at hread
  rw [hread, readScale?, Option.map_some, ofParts, Int.zero_sub]

theorem readExponent?_signed (n : Int) :
    readExponent? ((if n < 0 then '-' else '+') :: Nat.toDigits 10 n.natAbs) = some n := by
  have hdigits : (Nat.toDigits 10 n.natAbs).all Char.isDigit = true :=
    List.all_eq_true.2 fun c => Nat.isDigit_of_mem_toDigits (by decide) (by decide)
  have hsign (digits : List Char) : readSign ((if n < 0 then '-' else '+') :: digits) =
      (decide (n < 0), digits) := by
    by_cases hn : n < 0 <;> simp [hn, readSign]
  have hmagnitude : (if n < 0 then -(n.natAbs : Int) else n.natAbs) = n := by
    split <;> omega
  simpa [readExponent?, hsign, hdigits, Nat.toDigits_ne_nil, valueOfDigits_toDigits]
    using hmagnitude

/-- **Digits written positionally** are read at their rank. -/
theorem readMagnitude?_positional (h : g.Proper) :
    (readMagnitude? (positional g)).map Decimal.rank = some g.value.rank := by
  unfold positional
  split_ifs with hpoint hlength
  · -- the zeros after the point count as digits of the fraction
    have hread := readMagnitude?_fraction (List.cons_ne_nil '0' []) (by simp)
      (List.forall_mem_append.2 ⟨isDigit_of_mem_zeros (-g.point).toNat, h.isDigit⟩)
    rw [List.singleton_append, ← List.append_assoc, ← List.replicate_one,
      List.replicate_append_replicate, valueOfDigits_zeros_append] at hread
    rw [hread, Option.map_some, Digits.value, List.length_append, List.length_replicate]
    congr 3
    omega
  · -- those in front of it count as powers of ten
    rw [readMagnitude?_integer (by simp [h.chars_ne_nil])
      (List.forall_mem_append.2 ⟨h.isDigit, isDigit_of_mem_zeros _⟩), Option.map_some,
      valueOfDigits_append_zeros, rank_mul_ten_pow, Digits.value]
    congr 3
    omega
  · have hwhole : g.chars.take g.point.toNat ≠ [] := by
      simp only [ne_eq, List.take_eq_nil_iff, h.chars_ne_nil, or_false]
      omega
    rw [readMagnitude?_fraction hwhole (fun c hc => h.isDigit c (List.mem_of_mem_take hc))
      (fun c hc => h.isDigit c (List.mem_of_mem_drop hc)), Option.map_some,
      List.take_append_drop, List.length_drop, Digits.value]
    congr 3
    omega

/-- **Digits written with an exponent** are read as they are. -/
theorem readMagnitude?_scientific (h : g.Proper) :
    readMagnitude? (scientific g) = some g.value := by
  have hstops (cs : List Char) : Stops Char.isDigit ('e' :: cs) := stops_cons (by decide)
  have hscale : readScale? ('e' :: (if g.point - 1 < 0 then '-' else '+') ::
      Nat.toDigits 10 (g.point - 1).natAbs) = some (g.point - 1) :=
    readExponent?_signed (g.point - 1)
  have hdigits := h.isDigit
  unfold scientific
  rcases hchars : g.chars with _ | ⟨first, _ | ⟨second, others⟩⟩
  · exact absurd hchars h.chars_ne_nil
  · rw [hchars] at hdigits
    refine (readMagnitude?_whole (List.cons_ne_nil first []) hdigits (hstops _) (by simp)).trans ?_
    rw [hscale, Digits.value, hchars, Option.map_some, ofParts, List.append_nil]
    congr 2
    exact Int.sub_zero _
  · rw [hchars] at hdigits
    obtain ⟨hfirst, hothers⟩ := List.forall_mem_cons.1 hdigits
    refine (readMagnitude?_point (List.cons_ne_nil first []) (by simpa using hfirst) hothers
      (hstops _)).trans ?_
    rw [hscale, Digits.value, hchars, Option.map_some, ofParts, List.singleton_append]
    congr 2
    simp only [List.length_cons]
    omega

/-- A magnitude does not start with a sign. -/
theorem readSign_of_readMagnitude? {cs : List Char} {d : Decimal}
    (h : readMagnitude? cs = some d) : readSign cs = (false, cs) := by
  unfold readSign
  split
  · simp [readMagnitude?] at h
  · simp [readMagnitude?] at h
  · rfl

theorem read?_signed {negative : Bool} {cs : List Char} {d : Decimal}
    (h : readMagnitude? cs = some d) :
    read? (signed negative cs) = some (ofDecimal negative d) := by
  have hsign : readSign (signed negative cs) = (negative, cs) := by
    cases negative with
    | false => exact readSign_of_readMagnitude? h
    | true => rfl
  simp only [read?, hsign, h]

/-- A finite magnitude that is not zero is read at its rank. -/
theorem exists_readMagnitude?_displayMagnitude (hzero : rank ≠ 0) (h : rank < infinityRank) :
    ∃ d, readMagnitude? (displayMagnitude rank) = some d ∧ d.rank = rank := by
  have hproper := proper_digitsOfRank hzero h
  have hrank := rank_value_digitsOfRank h
  unfold displayMagnitude
  split
  · have hread := readMagnitude?_positional hproper
    rw [hrank, Option.map_eq_some_iff] at hread
    exact hread
  · exact ⟨_, readMagnitude?_scientific hproper, hrank⟩

variable {x : Binary64}

theorem display_of_isFinite (hzero : x.rank ≠ 0) (h : x.rank < infinityRank) :
    x.display = String.ofList (signed x.negative (displayMagnitude x.rank)) := by
  have hnan : ¬ infinityRank < x.rank := Nat.lt_asymm h
  simp [display, hzero, isNaN, hnan, isFinite, h]

/-- **A finite number is read from its written form**, if it is not a zero. -/
theorem read?_display (hzero : x.rank ≠ 0) (h : x.rank < infinityRank) :
    read? x.display.toList = some x := by
  obtain ⟨d, hread, hrank⟩ := exists_readMagnitude?_displayMagnitude hzero h
  rw [display_of_isFinite hzero h, String.toList_ofList, read?_signed hread]
  exact congrArg some (Binary64.ext rfl hrank)

/-! ## The characters of a written form -/

/-- Whether a character may stand in the written form of a finite number. -/
def isNumeral (c : Char) : Bool :=
  c.isDigit || c == '.' || c == 'e' || c == '+' || c == '-'

theorem isNumeral_of_isDigit {c : Char} (h : c.isDigit = true) : isNumeral c = true := by
  simp [isNumeral, h]

theorem isBlank_of_isNumeral {c : Char} (h : isNumeral c = true) : isBlank c = false := by
  simp only [isNumeral, Bool.or_eq_true, beq_iff_eq] at h
  rcases h with (((hdigit | rfl) | rfl) | rfl) | rfl
  · -- the code points of the digits lie between the ranges of the blanks
    simp only [Char.isDigit, ge_iff_le, Bool.and_eq_true, decide_eq_true_eq] at hdigit
    have hlow : 48 ≤ c.toNat := hdigit.1
    have hhigh : c.toNat ≤ 57 := hdigit.2
    simp only [isBlank, blankRanges, List.any_cons, List.any_nil, Bool.or_false]
    simp
    omega
  all_goals decide

theorem forall_isNumeral {cs : List Char} (h : ∀ c ∈ cs, c.isDigit = true) :
    ∀ c ∈ cs, isNumeral c = true :=
  fun c hc => isNumeral_of_isDigit (h c hc)

theorem isNumeral_of_mem_positional (h : g.Proper) : ∀ c ∈ positional g, isNumeral c = true := by
  have hchars := forall_isNumeral h.isDigit
  have hzeros (k : Nat) : ∀ c ∈ List.replicate k '0', isNumeral c = true :=
    forall_isNumeral (isDigit_of_mem_zeros k)
  unfold positional
  split
  · exact List.forall_mem_cons.2 ⟨by decide, List.forall_mem_cons.2
      ⟨by decide, List.forall_mem_append.2 ⟨hzeros _, hchars⟩⟩⟩
  split
  · exact List.forall_mem_append.2 ⟨hchars, hzeros _⟩
  · exact List.forall_mem_append.2 ⟨fun c hc => hchars c (List.mem_of_mem_take hc),
      List.forall_mem_cons.2 ⟨by decide, fun c hc => hchars c (List.mem_of_mem_drop hc)⟩⟩

theorem isNumeral_of_mem_scientific (h : g.Proper) : ∀ c ∈ scientific g, isNumeral c = true := by
  have hchars := forall_isNumeral h.isDigit
  have hexponent : ∀ c ∈ Nat.toDigits 10 (g.point - 1).natAbs, isNumeral c = true :=
    forall_isNumeral fun c => Nat.isDigit_of_mem_toDigits (by decide) (by decide)
  have hsign : isNumeral (if g.point - 1 < 0 then '-' else '+') = true := by split <;> decide
  unfold scientific
  refine List.forall_mem_append.2 ⟨?_, List.forall_mem_cons.2
    ⟨by decide, List.forall_mem_cons.2 ⟨hsign, hexponent⟩⟩⟩
  split
  next first second others heq =>
    obtain ⟨hfirst, hothers⟩ := List.forall_mem_cons.1 (heq ▸ hchars)
    exact List.forall_mem_cons.2 ⟨hfirst, List.forall_mem_cons.2 ⟨by decide, hothers⟩⟩
  next => exact hchars

/-- **The written form of a finite number** holds digits, points, signs and exponent letters. -/
theorem isNumeral_of_mem_display (h : x.rank < infinityRank) :
    ∀ c ∈ x.display.toList, isNumeral c = true := by
  by_cases hzero : x.rank = 0
  · rw [display, if_pos hzero]
    exact forall_isNumeral (by simp)
  have hproper := proper_digitsOfRank hzero h
  have hmagnitude : ∀ c ∈ displayMagnitude x.rank, isNumeral c = true := by
    unfold displayMagnitude
    split
    · exact isNumeral_of_mem_positional hproper
    · exact isNumeral_of_mem_scientific hproper
  rw [display_of_isFinite hzero h, String.toList_ofList, signed]
  split
  · exact List.forall_mem_cons.2 ⟨by decide, hmagnitude⟩
  · exact hmagnitude

end Binary64

/-! ## Numbers of facts -/

namespace Text

theorem trim_of_not_isBlank {cs : List Char} (h : ∀ c ∈ cs, isBlank c = false) : trim cs = cs := by
  have hdrop (ds : List Char) (hd : ∀ c ∈ ds, isBlank c = false) : ds.dropWhile isBlank = ds := by
    cases ds with
    | nil => rfl
    | cons c ds => simp [hd c]
  rw [trim, hdrop cs h, hdrop cs.reverse fun c hc => h c (List.mem_reverse.1 hc),
    List.reverse_reverse]

end Text

open Binary64

/-- **The number that the written form of a number is.** It is the number itself if that is finite,
and there is none otherwise; a zero loses its sign. -/
theorem numberOfText?_display (x : Binary64) :
    numberOfText? x.display =
      if x.rank = 0 then some (zero false) else (some x).filter isFinite := by
  by_cases hzero : x.rank = 0
  · rw [if_pos hzero, display, if_pos hzero]
    decide
  rw [if_neg hzero]
  by_cases hfinite : x.rank < infinityRank
  · rw [numberOfText?, trim_of_not_isBlank fun c hc =>
      isBlank_of_isNumeral (isNumeral_of_mem_display hfinite c hc), readFinite?,
      read?_display hzero hfinite]
  · have hnone : (some x).filter isFinite = none := by
      rw [Option.filter_some, isFinite, decide_eq_false hfinite]
      rfl
    rw [hnone, display, if_neg hzero]
    split
    · decide
    · rw [isFinite, decide_eq_false hfinite, if_neg Bool.false_ne_true]
      cases x.negative <;> decide

end Eligibility
