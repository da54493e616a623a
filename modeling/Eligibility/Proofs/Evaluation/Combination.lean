import Eligibility.Proofs.Evaluation.Formula
import Eligibility.Proofs.RuleTree.Combination
/-!
# Combined rules are evaluated part by part

To evaluate a combined rule is to evaluate its parts one after the other and then to ask whether all
of them hold, or any of them (`RuleTree.evaluate_of_combine`). What the parts look like does not
matter, and of several parts that fail the first is reported. As "all" and "any" do not depend on an
order, neither does the value of a combined rule (`RuleTree.evaluate_of_perm`).
-/

namespace Eligibility

namespace Connective

/-- Whether a connective over any number of rules holds, from whether each of them does. -/
def overall : Connective → List Bool → Bool
  | and, values => values.all id
  | or, values => values.any id

theorem overall_singleton (connective : Connective) (value : Bool) :
    connective.overall [value] = value := by
  cases connective with
  | and => exact Bool.and_true value
  | or => exact Bool.or_false value

theorem overall_cons (connective : Connective) (first second : Bool) (rest : List Bool) :
    connective.overall (connective.apply first second :: rest) =
      connective.overall (first :: second :: rest) := by
  cases connective with
  | and => exact Bool.and_assoc ..
  | or => exact Bool.or_assoc ..

theorem overall_of_perm (connective : Connective) {values values' : List Bool}
    (h : values.Perm values') : connective.overall values = connective.overall values' := by
  cases connective with
  | and => exact h.all_eq
  | or => exact h.any_eq

end Connective

namespace RuleTree

variable {policy : MissingPolicy} {facts : Facts} {connective : Connective}
  {trees trees' : List RuleTree} {tree tree' : RuleTree}

/-- A rule that was joined already counts as the first part. -/
theorem evaluate_foldl_join (policy : MissingPolicy) (facts : Facts) (connective : Connective)
    (first : RuleTree) (rest : List RuleTree) :
    (rest.foldl (join connective) first).evaluate policy facts = do
      let values ← (first :: rest).mapM (evaluate policy facts)
      return connective.overall values := by
  induction rest generalizing first with
  | nil =>
    simp only [List.foldl_nil, List.mapM_cons, List.mapM_nil, bind_assoc, pure_bind,
      Connective.overall_singleton, bind_pure]
  | cons next rest ih =>
    rw [List.foldl_cons, ih]
    simp only [List.mapM_cons, evaluate, bind_assoc, pure_bind, Connective.overall_cons]

/-- **A combined rule is evaluated part by part**, from left to right. -/
theorem evaluate_of_combine (h : combine connective trees = .ok tree) :
    tree.evaluate policy facts = do
      let values ← trees.mapM (evaluate policy facts)
      return connective.overall values := by
  cases trees with
  | nil => cases h
  | cons first rest =>
    obtain rfl := Except.ok.inj h
    exact evaluate_foldl_join policy facts connective first rest

theorem evaluate_of_combine_values {values : List Bool} (h : combine connective trees = .ok tree)
    (hvalues : trees.map (evaluate policy facts) = values.map .ok) :
    tree.evaluate policy facts = .ok (connective.overall values) := by
  rw [evaluate_of_combine h, Except.mapM_eq_ok_iff.2 hvalues, Except.ok_bind]
  rfl

/-- The first part that fails makes the combined rule fail. -/
theorem evaluate_of_combine_failure {before after : List RuleTree} {part : RuleTree}
    {cause : EvaluationError} (h : combine connective (before ++ part :: after) = .ok tree)
    (hbefore : ∀ other ∈ before, ∃ value, other.evaluate policy facts = .ok value)
    (hpart : part.evaluate policy facts = .error cause) :
    tree.evaluate policy facts = .error cause := by
  rw [evaluate_of_combine h, Except.mapM_of_firstError hbefore hpart, Except.error_bind]

/-- **The order of the parts does not matter** to the value of a combined rule. -/
theorem evaluate_of_perm (hperm : trees.Perm trees') (h : combine connective trees = .ok tree)
    (h' : combine connective trees' = .ok tree') {value : Bool}
    (hvalue : tree.evaluate policy facts = .ok value) :
    tree'.evaluate policy facts = .ok value := by
  rw [evaluate_of_combine h, Except.bind_eq_ok_iff] at hvalue
  obtain ⟨values, hvalues, hoverall⟩ := hvalue
  obtain rfl := Except.ok.inj hoverall
  obtain ⟨values', hvalues', hperm'⟩ := Except.exists_perm_of_mapM hperm hvalues
  rw [evaluate_of_combine h', hvalues', Except.ok_bind, connective.overall_of_perm hperm']
  rfl

/-- **A combined rule means all or any of its parts.** If each part has a value, the rules joined by
`AND` have the value true when all of these are true, and those joined by `OR` when any is. If not,
they fail as the first part does that fails. The parts in any other order have the same value, or
fail as well. -/
theorem evaluate_combine (policy : MissingPolicy) (facts : Facts) (connective : Connective)
    (trees : List RuleTree) (hne : trees ≠ []) :
    ∃ tree, combine connective trees = .ok tree ∧
      (∀ values : List Bool, trees.map (evaluate policy facts) = values.map .ok →
        tree.evaluate policy facts = .ok (connective.overall values)) ∧
      (∀ before part after cause, trees = before ++ part :: after →
        (∀ other ∈ before, ∃ value, other.evaluate policy facts = .ok value) →
        part.evaluate policy facts = .error cause → tree.evaluate policy facts = .error cause) ∧
      ∀ trees', trees.Perm trees' → ∃ tree', combine connective trees' = .ok tree' ∧
        ∀ value, tree.evaluate policy facts = .ok value ↔
          tree'.evaluate policy facts = .ok value := by
  obtain ⟨tree, htree⟩ := exists_combine connective hne
  refine ⟨tree, htree, fun values => evaluate_of_combine_values htree, ?_, fun trees' hperm => ?_⟩
  · rintro before part after cause rfl
    exact evaluate_of_combine_failure htree
  · have hne' : trees' ≠ [] := by
      rintro rfl
      exact hne hperm.eq_nil
    obtain ⟨tree', htree'⟩ := exists_combine connective hne'
    exact ⟨tree', htree', fun value => ⟨evaluate_of_perm hperm htree htree',
      evaluate_of_perm hperm.symm htree' htree⟩⟩

/-- The rules `city = Rome`, `age > 5 OR name = Ann` and `name = Bob`. -/
def romanParts : List RuleTree :=
  [.condition ⟨"city", .equal, .bare "Rome"⟩,
    .join .or (.condition ⟨"age", .greater, .bare "5"⟩)
      (.condition ⟨"name", .equal, .bare "Ann"⟩),
    .condition ⟨"name", .equal, .bare "Bob"⟩]

/-- Ann from Rome is 4 years old: the first two parts are true of her. When her age is no number,
the second part makes the rule fail although the first one decides it, also with the parts in the
opposite order. -/
theorem evaluate_combine_romanParts :
    let ann : Facts := ⟨[("city", .text "Rome"), ("age", .text "4"), ("name", .text "Ann")]⟩
    let ageless : Facts := ⟨[("city", .text "Rome"), ("age", .text "four"), ("name", .text "Ann")]⟩
    let noAge := EvaluationError.nonNumericFact "age" "four"
    romanParts ≠ [] ∧ romanParts.Perm romanParts.reverse ∧
      romanParts.map (evaluate .noMatch ann) = [true, true, false].map .ok ∧
      (∃ tree, combine .and romanParts = .ok tree ∧ tree.evaluate .noMatch ann = .ok false) ∧
      ∃ tree tree', combine .or romanParts = .ok tree ∧ combine .or romanParts.reverse = .ok tree' ∧
        tree.evaluate .noMatch ageless = .error noAge ∧
        ∀ value, tree'.evaluate .noMatch ageless ≠ .ok value := by
  intro ann ageless noAge
  have hne : romanParts ≠ [] := List.cons_ne_nil _ _
  have hperm : romanParts.Perm romanParts.reverse := (List.reverse_perm _).symm
  have hvalues : romanParts.map (evaluate .noMatch ann) = [true, true, false].map .ok := by
    decide +kernel
  have hfirst : ∀ part ∈ romanParts.take 1,
      ∃ value, part.evaluate .noMatch ageless = .ok value := by
    intro part hpart
    obtain rfl := List.mem_singleton.1 hpart
    exact ⟨true, rfl⟩
  have hsecond : romanParts[1].evaluate .noMatch ageless = .error noAge := by decide +kernel
  obtain ⟨all, hall, hallValue, -⟩ := evaluate_combine .noMatch ann .and romanParts hne
  obtain ⟨any, hany, -, hfails, horder⟩ := evaluate_combine .noMatch ageless .or romanParts hne
  obtain ⟨any', hany', hsame⟩ := horder _ hperm
  have herror := hfails _ _ _ noAge rfl hfirst hsecond
  refine ⟨hne, hperm, hvalues, ⟨all, hall, hallValue _ hvalues⟩,
    any, any', hany, hany', herror, ?_⟩
  intro value h
  rw [← hsame value, herror] at h
  cases h

end RuleTree

end Eligibility
