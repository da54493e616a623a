import Eligibility.Evaluation
import Eligibility.Proofs.Binary64.ReadBack
/-!
# Numbers are equal when their texts are

A condition with `=` compares texts, also when the fact is a number. Nothing is lost by that for a
finite number: its text reads back as the number, up to the sign of a zero, so that no other number
has this text (`Binary64.display_eq_display_iff`). The text is a single word
(`Binary64.isWord_display`), so that it may stand in a rule as it is.

`Binary64.equals` is the equality of numbers that this is about: the two zeros are equal, and a
value that is no number is not equal to itself.
-/

namespace Eligibility

namespace Binary64

variable {x y m n : Binary64}

/-! ## Equal numbers -/

/-- Whether two values are the same number: finite ones are if they have the same magnitude and
sign, where a zero has none, and infinities if they have the same sign. -/
def equals (x y : Binary64) : Bool :=
  if x.isFinite && y.isFinite then x.signedUnits == y.signedUnits
  else !x.isNaN && x == y

/-- Only a finite number is equal to a finite number. -/
theorem equals_iff (hn : n.isFinite = true) :
    m.equals n = true ↔ m.isFinite = true ∧ m.signedUnits = n.signedUnits := by
  cases hm : m.isFinite with
  | true => simp [equals, hm, hn]
  | false =>
    have hne : m ≠ n := by
      rintro rfl
      rw [hm] at hn
      cases hn
    simp [equals, hm, hne]

/-- Finite numbers are the same when they have the same bits or are both zeros. -/
theorem signedUnits_eq_iff (hx : x.isFinite = true) (hy : y.isFinite = true) :
    x.signedUnits = y.signedUnits ↔ x = y ∨ x.rank = 0 ∧ y.rank = 0 := by
  constructor
  · intro h
    simp only [isFinite, decide_eq_true_eq] at hx hy
    have hunits : x.units = y.units := by
      simp only [signedUnits] at h
      split_ifs at h <;> omega
    have hrank : x.rank = y.rank := unitsOfRank_inj hx hy hunits
    by_cases hzero : x.rank = 0
    · exact .inr ⟨hzero, hrank ▸ hzero⟩
    · -- with a magnitude that is not zero, the signs are the same
      have hpos : y.units ≠ 0 := by
        rw [← hunits]
        exact fun h => hzero (unitsOfRank_inj hx (by decide) h)
      refine .inl (Binary64.ext ?_ hrank)
      simp only [signedUnits, hunits] at h
      cases hxs : x.negative <;> cases hys : y.negative <;> simp [hxs, hys] at h ⊢ <;> omega
  · rintro (rfl | ⟨hx, hy⟩)
    · rfl
    · rw [signedUnits_eq_zero hx, signedUnits_eq_zero hy]

/-! ## Their texts -/

/-- A text that reads as a number is the text of a finite number of the same magnitude and sign. -/
theorem of_numberOfText?_display (h : numberOfText? m.display = some x) :
    m.isFinite = true ∧ m.signedUnits = x.signedUnits := by
  rw [numberOfText?_display] at h
  split_ifs at h with hzero
  · obtain rfl := Option.some.inj h
    refine ⟨?_, (signedUnits_eq_zero hzero).trans (signedUnits_eq_zero rfl).symm⟩
    rw [isFinite, hzero]
    decide
  · obtain ⟨hm, hfinite⟩ := Option.filter_eq_some_iff.1 h
    obtain rfl := Option.some.inj hm
    exact ⟨hfinite, rfl⟩

theorem exists_numberOfText?_display (hn : n.isFinite = true) :
    ∃ x, numberOfText? n.display = some x := by
  rw [numberOfText?_display]
  split
  · exact ⟨_, rfl⟩
  · exact ⟨n, Option.filter_eq_some_iff.2 ⟨rfl, hn⟩⟩

/-- **No other number has the text of a finite number.** -/
theorem display_eq_display_iff (hn : n.isFinite = true) :
    m.display = n.display ↔ m.equals n = true := by
  rw [equals_iff hn]
  constructor
  · intro h
    obtain ⟨x, hx⟩ := exists_numberOfText?_display hn
    obtain ⟨hm, hunits⟩ := of_numberOfText?_display (h ▸ hx)
    exact ⟨hm, hunits.trans (of_numberOfText?_display hx).2.symm⟩
  · rintro ⟨hm, hunits⟩
    rcases (signedUnits_eq_iff hm hn).1 hunits with rfl | ⟨hm, hn⟩
    · rfl
    · rw [display, if_pos hm, display, if_pos hn]

theorem isWordChar_of_isNumeral {c : Char} (h : isNumeral c = true) :
    Token.isWordChar c = true := by
  have hparen (paren : Char) (hnumeral : isNumeral paren = false) : c ≠ paren := by
    rintro rfl
    rw [h] at hnumeral
    cases hnumeral
  simp [Token.isWordChar, isBlank_of_isNumeral h, hparen '(' (by decide), hparen ')' (by decide)]

/-- No operator is written with numerals alone. -/
theorem ofWord_of_isNumeral {text : String} (h : ∀ c ∈ text.toList, isNumeral c = true) :
    Token.Kind.ofWord text = .word text := by
  have hoperators : ∀ word ∈ ["AND", "OR", ">", "<", "="],
      word.toList.all isNumeral = false := by decide
  have htext : text ∉ ["AND", "OR", ">", "<", "="] := by
    intro hmem
    have hall := hoperators text hmem
    rw [List.all_eq_true.2 h] at hall
    cases hall
  simp only [List.mem_cons, not_or] at htext
  simp [Token.Kind.ofWord, Connective.ofKeyword?, Comparator.ofSymbol?, htext]

theorem isWord_of_isNumeral {text : String} (hne : text ≠ "")
    (h : ∀ c ∈ text.toList, isNumeral c = true) : isWord text = true := by
  have hquote : text.toList.head? ≠ some '\'' := by
    intro hhead
    have hnumeral := h _ (List.mem_of_head? hhead)
    exact absurd hnumeral (by decide)
  have hall : text.toList.all Token.isWordChar = true :=
    List.all_eq_true.2 fun c hc => isWordChar_of_isNumeral (h c hc)
  simp [isWord, hne, hquote, hall, ofWord_of_isNumeral h]

/-- **The text of a finite number is a word.** -/
theorem isWord_display (hn : n.isFinite = true) : isWord n.display = true := by
  obtain ⟨x, hx⟩ := exists_numberOfText?_display hn
  refine isWord_of_isNumeral ?_ (isNumeral_of_mem_display (of_decide_eq_true hn))
  intro hempty
  have hnone : numberOfText? "" = none := by decide
  rw [hempty, hnone] at hx
  cases hx

end Binary64

/-! ## Conditions -/

namespace Condition

open Binary64

/-- **A number is equal to its text alone.** The text of a finite number may stand in a rule as a
bare literal. Whatever the field, the condition that the fact of the field is equal to this literal
is true of the numbers that are equal to the one written, and false of all others: of other finite
numbers, of infinities and of what is no number. So no two different numbers share a text, while
the two zeros do. -/
theorem holds_number_eq_equals (n : Binary64) (hn : n.isFinite = true) :
    ∃ literal, Literal.bare? (Fact.number n).display = .ok literal ∧
      (∀ field, isWord field = true → ∃ c, of? field .equal literal = .ok c ∧
        ∀ policy m, c.holds policy (some (.number m)) = .ok (m.equals n)) ∧
      (∀ m, (Fact.number m).display = (Fact.number n).display ↔ m.equals n = true) ∧
      ∀ m : Binary64, m.equals n = true ↔ m.isFinite = true ∧ m.signedUnits = n.signedUnits := by
  refine ⟨.bare n.display, if_pos (isWord_display hn), fun field hfield => ?_,
    fun m => display_eq_display_iff hn, fun m => equals_iff hn⟩
  refine ⟨⟨field, .equal, .bare n.display⟩, if_pos hfield, fun policy m => ?_⟩
  have hsame : (m.display == n.display) = m.equals n :=
    Bool.eq_iff_iff.2 (beq_iff_eq.trans (display_eq_display_iff hn))
  exact congrArg Except.ok hsame

/-- The smallest positive number has the text `5e-324`. The one above it is not equal to this text,
and neither is a value that is no number. -/
theorem holds_smallest_eq_equals :
    let smallest : Binary64 := ofBits 1
    let next : Binary64 := ofBits 2
    let c : Condition := ⟨"rate", .equal, .bare "5e-324"⟩
    smallest.isFinite = true ∧ isWord "rate" = true ∧
      Literal.bare? (Fact.number smallest).display = .ok (.bare "5e-324") ∧
      of? "rate" .equal (.bare "5e-324") = .ok c ∧
      c.holds .error (some (.number smallest)) = .ok true ∧
      c.holds .error (some (.number next)) = .ok false ∧
      c.holds .error (some (.number nan)) = .ok false := by
  intro smallest next c
  have hfinite : smallest.isFinite = true := by decide
  have hfield : isWord "rate" = true := by decide
  obtain ⟨literal, hliteral, hholds, -, -⟩ := holds_number_eq_equals smallest hfinite
  have hdisplay : (Fact.number smallest).display = "5e-324" := by decide +kernel
  have hbare : Literal.bare? (Fact.number smallest).display = .ok (.bare "5e-324") := by
    rw [hdisplay]
    exact if_pos (by decide)
  obtain rfl : Literal.bare "5e-324" = literal := Except.ok.inj (hbare.symm.trans hliteral)
  obtain ⟨c', hc', hc⟩ := hholds "rate" hfield
  have hof : of? "rate" .equal (.bare "5e-324") = .ok c := if_pos hfield
  obtain rfl : c = c' := Except.ok.inj (hof.symm.trans hc')
  exact ⟨hfinite, hfield, hbare, hof, hc .error smallest, hc .error next, hc .error nan⟩

end Condition

end Eligibility
