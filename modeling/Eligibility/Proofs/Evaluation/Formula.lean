import Eligibility.Evaluation
import Eligibility.Proofs.Outcome
/-!
# A rule is evaluated as a formula over its conditions

Read as a formula, a rule is true or false as soon as each of its conditions is (`RuleTree.truth`).
To evaluate it is to try all of its conditions from left to right, whatever the connectives over
them, and then to read the formula (`RuleTree.evaluate_eq`): no condition is passed over because
those before it decide the rule already, and of several conditions that fail the first is reported.

So the order of the sides of a connective matters only for which failure is reported
(`RuleTree.Swapped.evaluate_eq_ok_iff`).
-/

namespace Eligibility

theorem Connective.apply_comm (connective : Connective) (left right : Bool) :
    connective.apply left right = connective.apply right left := by
  cases connective with
  | and => exact Bool.and_comm left right
  | or => exact Bool.or_comm left right

/-! ## Conditions -/

namespace Condition

/-- The truth value of a condition on some facts, or why it has none. -/
def outcome (policy : MissingPolicy) (facts : Facts) (c : Condition) :
    Except EvaluationError Bool :=
  c.holds policy (facts.get? c.field)

/-- Whether a condition is true of some facts. -/
def isMet (policy : MissingPolicy) (facts : Facts) (c : Condition) : Bool :=
  match c.outcome policy facts with
  | .ok value => value
  | .error _ => false

theorem isMet_of_outcome {policy : MissingPolicy} {facts : Facts} {c : Condition} {value : Bool}
    (h : c.outcome policy facts = .ok value) : c.isMet policy facts = value := by
  rw [isMet, h]

end Condition

namespace RuleTree

variable {policy : MissingPolicy} {facts : Facts} {tree other : RuleTree}

/-! ## Formulas -/

/-- The truth of a rule that is read as a formula, from the truth of its conditions. -/
def truth (value : Condition → Bool) : RuleTree → Bool
  | condition c => value c
  | join .and left right => left.truth value && right.truth value
  | join .or left right => left.truth value || right.truth value

theorem truth_join (value : Condition → Bool) (connective : Connective) (left right : RuleTree) :
    (join connective left right).truth value =
      connective.apply (left.truth value) (right.truth value) := by
  cases connective <;> rfl

/-- A formula looks at no other conditions than its own. -/
theorem truth_congr {value value' : Condition → Bool}
    (h : ∀ c ∈ tree.conditions, value c = value' c) : tree.truth value = tree.truth value' := by
  induction tree with
  | condition c => exact h c List.mem_cons_self
  | join connective left right ihl ihr =>
    obtain ⟨hl, hr⟩ := List.forall_mem_append.1 h
    rw [truth_join, truth_join, ihl hl, ihr hr]

/-- A formula that is true stays true when conditions become true. -/
theorem truth_mono {value value' : Condition → Bool}
    (h : ∀ c ∈ tree.conditions, value c = true → value' c = true)
    (htrue : tree.truth value = true) : tree.truth value' = true := by
  induction tree with
  | condition c => exact h c List.mem_cons_self htrue
  | join connective left right ihl ihr =>
    obtain ⟨hl, hr⟩ := List.forall_mem_append.1 h
    cases connective with
    | and =>
      obtain ⟨hleft, hright⟩ := Bool.and_eq_true_iff.1 htrue
      exact Bool.and_eq_true_iff.2 ⟨ihl hl hleft, ihr hr hright⟩
    | or => exact Bool.or_eq_true_iff.2 ((Bool.or_eq_true_iff.1 htrue).imp (ihl hl) (ihr hr))

/-! ## Evaluation -/

/-- **A rule is evaluated by trying all of its conditions from left to right** and then reading it
as a formula. -/
theorem evaluate_eq (policy : MissingPolicy) (facts : Facts) (tree : RuleTree) :
    tree.evaluate policy facts = do
      let _ ← tree.conditions.mapM (Condition.outcome policy facts)
      return tree.truth (Condition.isMet policy facts) := by
  induction tree with
  | condition c =>
    change c.outcome policy facts = _
    rw [conditions, List.mapM_cons, truth]
    cases h : c.outcome policy facts with
    | error cause => rfl
    | ok value => simp [Condition.isMet_of_outcome h]
  | join connective left right ihl ihr =>
    -- the left side's conditions, then the right side's, and only then the connective
    rw [evaluate, ihl, ihr, conditions, List.mapM_append, truth_join]
    simp only [bind_assoc, pure_bind]

theorem evaluate_of_outcomes {value : Condition → Bool}
    (h : ∀ c ∈ tree.conditions, c.outcome policy facts = .ok (value c)) :
    tree.evaluate policy facts = .ok (tree.truth value) := by
  have hall : tree.conditions.mapM (Condition.outcome policy facts) =
      .ok (tree.conditions.map value) := by
    rw [Except.mapM_eq_ok_iff, List.map_map]
    exact List.map_congr_left h
  rw [evaluate_eq, hall, Except.ok_bind,
    truth_congr fun c hc => Condition.isMet_of_outcome (h c hc)]
  rfl

/-- A rule is evaluated alike on facts on which each of its conditions comes out alike. -/
theorem evaluate_congr {facts' : Facts}
    (h : ∀ c ∈ tree.conditions, c.outcome policy facts = c.outcome policy facts') :
    tree.evaluate policy facts = tree.evaluate policy facts' := by
  induction tree with
  | condition c => exact h c List.mem_cons_self
  | join connective left right ihl ihr =>
    obtain ⟨hl, hr⟩ := List.forall_mem_append.1 h
    rw [evaluate, evaluate, ihl hl, ihr hr]

/-- A rule has a truth value when each of its conditions has one. -/
theorem evaluate_eq_ok_iff {value : Bool} :
    tree.evaluate policy facts = .ok value ↔
      (∀ c ∈ tree.conditions, ∃ v, c.outcome policy facts = .ok v) ∧
        tree.truth (Condition.isMet policy facts) = value := by
  constructor
  · intro h
    rw [evaluate_eq, Except.bind_eq_ok_iff] at h
    obtain ⟨values, hvalues, htruth⟩ := h
    refine ⟨fun c hc => ?_, Except.ok.inj htruth⟩
    obtain ⟨v, -, hv⟩ := Except.exists_mem_of_mapM hvalues hc
    exact ⟨v, hv⟩
  · rintro ⟨hall, rfl⟩
    refine evaluate_of_outcomes fun c hc => ?_
    obtain ⟨v, hv⟩ := hall c hc
    rw [hv, Condition.isMet_of_outcome hv]

/-- The first condition that fails makes the rule fail. -/
theorem evaluate_of_firstFailure {before after : List Condition} {c : Condition}
    {cause : EvaluationError} (hsplit : tree.conditions = before ++ c :: after)
    (hbefore : ∀ d ∈ before, ∃ v, d.outcome policy facts = .ok v)
    (hc : c.outcome policy facts = .error cause) :
    tree.evaluate policy facts = .error cause := by
  rw [evaluate_eq, hsplit, Except.mapM_of_firstError hbefore hc, Except.error_bind]

/-- A rule fails because one of its conditions does. -/
theorem exists_of_evaluate_eq_error {cause : EvaluationError}
    (h : tree.evaluate policy facts = .error cause) :
    ∃ c ∈ tree.conditions, c.outcome policy facts = .error cause := by
  rw [evaluate_eq, Except.bind_eq_error_iff] at h
  rcases h with h | ⟨_, -, h⟩
  · exact Except.exists_of_mapM_eq_error h
  · cases h

theorem exists_evaluate_eq_error {c : Condition} {cause : EvaluationError}
    (hc : c ∈ tree.conditions) (h : c.outcome policy facts = .error cause) :
    ∃ cause', tree.evaluate policy facts = .error cause' := by
  cases heval : tree.evaluate policy facts with
  | error cause' => exact ⟨cause', rfl⟩
  | ok value =>
    obtain ⟨v, hv⟩ := (evaluate_eq_ok_iff.1 heval).1 c hc
    rw [h] at hv
    cases hv

/-! ## Swapped sides -/

/-- `Swapped tree other`: the second rule is the first with the two sides of some of its connectives
swapped. -/
inductive Swapped : RuleTree → RuleTree → Prop
  | condition (c : Condition) : Swapped (.condition c) (.condition c)
  | keep (connective : Connective) {left right left' right' : RuleTree} (hl : Swapped left left')
    (hr : Swapped right right') :
    Swapped (.join connective left right) (.join connective left' right')
  | swap (connective : Connective) {left right left' right' : RuleTree} (hl : Swapped left left')
    (hr : Swapped right right') :
    Swapped (.join connective left right) (.join connective right' left')

theorem Swapped.conditions_perm (h : Swapped tree other) :
    tree.conditions.Perm other.conditions := by
  induction h with
  | condition c => exact List.Perm.refl _
  | keep connective _ _ ihl ihr => exact ihl.append ihr
  | swap connective _ _ ihl ihr => exact (ihl.append ihr).trans List.perm_append_comm

theorem Swapped.truth_eq (h : Swapped tree other) (value : Condition → Bool) :
    tree.truth value = other.truth value := by
  induction h with
  | condition c => rfl
  | keep connective _ _ ihl ihr => rw [truth_join, truth_join, ihl, ihr]
  | swap connective _ _ ihl ihr =>
    rw [truth_join, truth_join, ihl, ihr]
    exact connective.apply_comm _ _

theorem Swapped.evaluate_eq_ok_iff (h : Swapped tree other) (value : Bool) :
    tree.evaluate policy facts = .ok value ↔ other.evaluate policy facts = .ok value := by
  rw [RuleTree.evaluate_eq_ok_iff, RuleTree.evaluate_eq_ok_iff, h.truth_eq]
  simp only [h.conditions_perm.mem_iff]

/-- **A rule is evaluated as a formula over its conditions.** If each condition has a truth value,
the rule has the one of the formula. If not, it fails as the leftmost condition does that has none,
also where a connective over that condition is decided by its other side. So with the sides of some
connectives swapped it has the same truth value, or has none as before. -/
theorem evaluate_as_formula (policy : MissingPolicy) (facts : Facts) (tree : RuleTree) :
    (∀ value : Condition → Bool, (∀ c ∈ tree.conditions, c.outcome policy facts = .ok (value c)) →
      tree.evaluate policy facts = .ok (tree.truth value)) ∧
    (∀ before c after cause, tree.conditions = before ++ c :: after →
      (∀ d ∈ before, ∃ value, d.outcome policy facts = .ok value) →
      c.outcome policy facts = .error cause → tree.evaluate policy facts = .error cause) ∧
    ∀ other, Swapped tree other → ∀ value,
      tree.evaluate policy facts = .ok value ↔ other.evaluate policy facts = .ok value :=
  ⟨fun _ => evaluate_of_outcomes, fun _ _ _ _ => evaluate_of_firstFailure,
    fun _ => Swapped.evaluate_eq_ok_iff⟩

/-- The condition `team = Sales`. -/
def inSales : Condition := ⟨"team", .equal, .bare "Sales"⟩

/-- The condition `name > 5`. -/
def nameOverFive : Condition := ⟨"name", .greater, .bare "5"⟩

/-- The rule `team = Sales OR name > 5` on someone in Sales: it is true where there is no name. With
a name that is no number it fails, although its left side is true. With its sides swapped it is true
or fails on the same facts. -/
theorem evaluate_salesRule :
    let rule := join .or (condition inSales) (condition nameOverFive)
    let swapped := join .or (condition nameOverFive) (condition inSales)
    let unnamed : Facts := ⟨[("team", .text "Sales")]⟩
    let named : Facts := ⟨[("team", .text "Sales"), ("name", .text "Bob")]⟩
    (∀ c ∈ rule.conditions, c.outcome .noMatch unnamed = .ok (c == inSales)) ∧
      rule.evaluate .noMatch unnamed = .ok true ∧ swapped.evaluate .noMatch unnamed = .ok true ∧
      rule.conditions = [inSales] ++ nameOverFive :: [] ∧
      inSales.outcome .noMatch named = .ok true ∧
      nameOverFive.outcome .noMatch named = .error (.nonNumericFact "name" "Bob") ∧
      rule.evaluate .noMatch named = .error (.nonNumericFact "name" "Bob") ∧
      ∀ value, swapped.evaluate .noMatch named ≠ .ok value := by
  intro rule swapped unnamed named
  have hswapped : Swapped rule swapped := .swap .or (.condition _) (.condition _)
  have houtcomes : ∀ c ∈ rule.conditions, c.outcome .noMatch unnamed = .ok (c == inSales) := by
    intro c hc
    obtain rfl | rfl : c = inSales ∨ c = nameOverFive := by
      simpa [rule, conditions] using hc
    · rfl
    · rfl
  have hsales : inSales.outcome .noMatch named = .ok true := rfl
  have hname : nameOverFive.outcome .noMatch named = .error (.nonNumericFact "name" "Bob") := rfl
  obtain ⟨hformula, -, hswap⟩ := evaluate_as_formula .noMatch unnamed rule
  obtain ⟨-, hfirst, hswapNamed⟩ := evaluate_as_formula .noMatch named rule
  have htrue : rule.evaluate .noMatch unnamed = .ok true := hformula _ houtcomes
  have hfails : rule.evaluate .noMatch named = .error (.nonNumericFact "name" "Bob") := by
    refine hfirst [inSales] nameOverFive [] _ rfl (fun d hd => ?_) hname
    obtain rfl := List.mem_singleton.1 hd
    exact ⟨true, hsales⟩
  refine ⟨houtcomes, htrue, (hswap _ hswapped true).1 htrue, rfl, hsales, hname, hfails, ?_⟩
  intro value h
  rw [← hswapNamed _ hswapped value, hfails] at h
  cases h

end RuleTree

end Eligibility
