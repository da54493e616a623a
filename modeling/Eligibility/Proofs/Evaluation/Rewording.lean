import Eligibility.Proofs.Binary64.ReadBack
import Eligibility.Proofs.Evaluation.Report
/-!
# Numbers and their written forms are evaluated alike

A condition looks at a fact as a text and as a number. In place of a number its written form gives
the same text, and the same number up to the sign of a zero, which no comparison sees
(`Condition.holdsOf_text_display`). So a record in which some numbers are spelled out
(`Facts.spellOut`) gets the same verdicts, errors and reports.

Nor does a condition look at the quotes of its literal, except to show the literal in an error. A
rule with some quotes put on or taken off (`RuleTree.Requoted`) has the same verdict, or fails for
the same reason at the same field.
-/

namespace Eligibility

open Binary64

/-! ## Facts -/

namespace Fact

/-- The written form of a number is that number, up to the sign of a zero. -/
theorem asNumber?_text_display (fact : Fact) :
    (text fact.display).asNumber? = fact.asNumber? ∨
      ∃ x y : Binary64, (text fact.display).asNumber? = some x ∧ fact.asNumber? = some y ∧
        x.signedUnits = y.signedUnits := by
  cases fact with
  | text value => exact .inl rfl
  | number y =>
    have hread : (text y.display).asNumber? = _ := numberOfText?_display y
    by_cases hzero : y.rank = 0
    · have hfinite : y.isFinite = true := by
        rw [isFinite, hzero]
        decide
      rw [if_pos hzero] at hread
      refine .inr ⟨zero false, y, hread, Option.filter_eq_some_iff.2 ⟨rfl, hfinite⟩, ?_⟩
      rw [signedUnits_eq_zero hzero, signedUnits_eq_zero rfl]
    · rw [if_neg hzero] at hread
      exact .inl hread

end Fact

namespace Facts

/-- The record with the facts of some fields spelled out: texts in place of numbers. -/
def spellOut (chosen : String → Bool) (facts : Facts) : Facts :=
  ⟨facts.entries.map fun entry =>
    (entry.1, if chosen entry.1 then .text entry.2.display else entry.2)⟩

theorem get?_spellOut (chosen : String → Bool) (facts : Facts) (field : String) :
    (facts.spellOut chosen).get? field = (facts.get? field).map fun fact =>
      if chosen field then .text fact.display else fact := by
  rw [get?, get?, spellOut, List.find?_map, Option.map_map, Option.map_map]
  refine Option.map_congr fun entry hentry => ?_
  have hfield : entry.1 = field := by simpa using List.find?_some hentry
  simp [hfield]

end Facts

/-! ## Conditions -/

namespace Condition

variable {c d : Condition}

theorem compare_text_display (c : Condition) (fact : Fact)
    {relation : Binary64 → Binary64 → Bool}
    (hrelation : ∀ x y bound : Binary64, x.signedUnits = y.signedUnits →
      relation x bound = relation y bound) :
    c.compare (.text fact.display) relation = c.compare fact relation := by
  have hdisplay : (Fact.text fact.display).display = fact.display := rfl
  rcases fact.asNumber?_text_display with h | ⟨x, y, hx, hy, hunits⟩
  · rw [compare, h, hdisplay, compare]
  · simp only [compare, hx, hy, hrelation x y _ hunits]

/-- A condition takes the text of a number like the number. -/
theorem holdsOf_text_display (c : Condition) (fact : Fact) :
    c.holdsOf (.text fact.display) = c.holdsOf fact := by
  unfold holdsOf
  cases c.comparator with
  | greater => exact c.compare_text_display fact fun x y bound h => by simp only [less, h]
  | less => exact c.compare_text_display fact fun x y bound h => by simp only [less, h]
  | equal => rfl

theorem outcome_spellOut (policy : MissingPolicy) (facts : Facts) (chosen : String → Bool)
    (c : Condition) : c.outcome policy (facts.spellOut chosen) = c.outcome policy facts := by
  rw [outcome, outcome, Facts.get?_spellOut]
  cases facts.get? c.field with
  | none => rfl
  | some fact =>
    rw [Option.map_some]
    split
    · exact c.holdsOf_text_display fact
    · rfl

/-- `c.Requoted d`: the two conditions are the same, except perhaps for the quotes of their
literals. -/
structure Requoted (c d : Condition) : Prop where
  field : c.field = d.field
  comparator : c.comparator = d.comparator
  text : c.literal.text = d.literal.text

end Condition

namespace EvaluationError

/-- The kinds of evaluation errors. -/
inductive Kind
  | missingField
  | nonNumericFact
  | nonNumericLiteral
  deriving DecidableEq, Repr

/-- The kind of an error and the field that it is about, without the texts that it shows. -/
def blame : EvaluationError → Kind × String
  | missingField field => (.missingField, field)
  | nonNumericFact field _ => (.nonNumericFact, field)
  | nonNumericLiteral field _ => (.nonNumericLiteral, field)

end EvaluationError

open EvaluationError (blame)

namespace Condition.Requoted

variable {c d : Condition}

theorem compare_blame (h : c.Requoted d) (fact : Fact) (relation : Binary64 → Binary64 → Bool) :
    (c.compare fact relation).mapError blame = (d.compare fact relation).mapError blame := by
  rw [compare, compare, h.field, h.text]
  cases fact.asNumber? with
  | none => rfl
  | some value => cases numberOfText? d.literal.text <;> rfl

theorem holdsOf_blame (h : c.Requoted d) (fact : Fact) :
    (c.holdsOf fact).mapError blame = (d.holdsOf fact).mapError blame := by
  rw [holdsOf, holdsOf, h.comparator, h.text]
  cases d.comparator with
  | greater => exact h.compare_blame fact _
  | less => exact h.compare_blame fact _
  | equal => rfl

theorem outcome_blame (h : c.Requoted d) (policy : MissingPolicy) (facts : Facts) :
    (c.outcome policy facts).mapError blame = (d.outcome policy facts).mapError blame := by
  rw [outcome, outcome, h.field]
  cases facts.get? d.field with
  | some fact => exact h.holdsOf_blame fact
  | none =>
    cases policy with
    | noMatch => rfl
    | error => simp [holds, blame, h.field]

end Condition.Requoted

/-! ## Rules -/

namespace RuleTree

/-- `tree.Requoted other`: the two rules are the same, except perhaps for the quotes of some
literals. -/
inductive Requoted : RuleTree → RuleTree → Prop
  | condition {c d : Condition} (h : c.Requoted d) : Requoted (.condition c) (.condition d)
  | join (connective : Connective) {left right left' right' : RuleTree} (hl : Requoted left left')
    (hr : Requoted right right') :
    Requoted (.join connective left right) (.join connective left' right')

theorem Requoted.evaluate_blame {tree other : RuleTree} (h : Requoted tree other)
    (policy : MissingPolicy) (facts : Facts) :
    (tree.evaluate policy facts).mapError blame = (other.evaluate policy facts).mapError blame := by
  induction h with
  | condition h => exact h.outcome_blame policy facts
  | join connective _ _ ihl ihr =>
    simp only [evaluate, Except.mapError_bind, ihl, ihr]

/-- **Numbers and quotes may be reworded.** A rule comes out the same, with the same errors and the
same report, when any numbers of the record give way to their written forms, zeros of either sign
and what is not finite included. And with quotes put on or taken off any of its literals it has the
same truth value, or fails with an error of the same kind about the same field. -/
theorem evaluate_reworded (policy : MissingPolicy) (facts : Facts) (tree : RuleTree) :
    (∀ chosen, tree.evaluate policy (facts.spellOut chosen) = tree.evaluate policy facts ∧
      tree.explain policy (facts.spellOut chosen) = tree.explain policy facts) ∧
    ∀ other, Requoted tree other → (other.evaluate policy facts).mapError blame =
      (tree.evaluate policy facts).mapError blame := by
  refine ⟨fun chosen => ⟨?_, ?_⟩, fun other h => (h.evaluate_blame policy facts).symm⟩
  · exact evaluate_congr fun c _ => c.outcome_spellOut policy facts chosen
  · exact explainAt_congr (fun c _ => c.outcome_spellOut policy facts chosen) []

/-- The rule `price > '2' AND change = 0`. -/
def priceRule : RuleTree :=
  .join .and (.condition ⟨"price", .greater, .quoted "2"⟩)
    (.condition ⟨"change", .equal, .bare "0"⟩)

/-- A price of 3 that has not changed, on the negative side. -/
def priceFacts : Facts := ⟨[("price", .number (ofInt 3)), ("change", .number (zero true))]⟩

/-- A price that is `Infinity`. -/
def endlessPrice : Facts := ⟨[("price", .number (infinity false)), ("change", .number (zero true))]⟩

/-- The rule `price > '2' AND change = 0` holds of the price of 3, also with all numbers spelled out
and as `price > 2 AND change = '0'`. It fails on the infinite price, whose text is no number
either. -/
theorem evaluate_priceRule_reworded :
    let other : RuleTree := .join .and (.condition ⟨"price", .greater, .bare "2"⟩)
      (.condition ⟨"change", .equal, .quoted "0"⟩)
    let all : String → Bool := fun _ => true
    Requoted priceRule other ∧
      priceRule.evaluate .noMatch priceFacts = .ok true ∧
      priceRule.evaluate .noMatch (priceFacts.spellOut all) = .ok true ∧
      other.evaluate .noMatch priceFacts = .ok true ∧
      priceRule.evaluate .noMatch (endlessPrice.spellOut all) =
        .error (.nonNumericFact "price" "Infinity") := by
  intro other all
  have hrequoted : Requoted priceRule other :=
    .join .and (.condition ⟨rfl, rfl, rfl⟩) (.condition ⟨rfl, rfl, rfl⟩)
  have htrue : priceRule.evaluate .noMatch priceFacts = .ok true := by decide +kernel
  have hfails : priceRule.evaluate .noMatch endlessPrice =
      .error (.nonNumericFact "price" "Infinity") := by decide +kernel
  obtain ⟨hspelled, hquotes⟩ := evaluate_reworded .noMatch priceFacts priceRule
  obtain ⟨hendless, -⟩ := evaluate_reworded .noMatch endlessPrice priceRule
  have hother := hquotes other hrequoted
  rw [htrue, Except.mapError_ok, Except.mapError_eq_ok_iff] at hother
  exact ⟨hrequoted, htrue, (hspelled all).1.trans htrue, hother, (hendless all).1.trans hfails⟩

end RuleTree

end Eligibility
