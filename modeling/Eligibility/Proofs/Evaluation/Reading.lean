import Eligibility.Proofs.Evaluation.Missing
import Eligibility.Proofs.Evaluation.Report
/-!
# A rule reads its own fields and no others

Records with the same facts at the fields of a rule cannot be told apart by it: it has the same
value or error on both, and the same report.

Nor does `RuleTree.fields` list too much. Where one of the fields has no fact the strict evaluation
fails. And each of them makes a difference to the report (`RuleTree.DependsOn`), also behind a
condition that decides the rule or makes the strict evaluation fail: for every condition there is a
fact that makes it true or makes it fail (`Condition.exists_decisive`), and the report on this fact
alone is not the one on no fact at all.
-/

namespace Eligibility

/-- Two records have the same facts, or none, at some fields. -/
def Facts.AgreeOn (fields : String → Prop) (facts facts' : Facts) : Prop :=
  ∀ field, fields field → facts.get? field = facts'.get? field

/-- For every condition there is a fact of which it is true, or on which it fails. -/
theorem Condition.exists_decisive (c : Condition) :
    ∃ fact, c.holdsOf fact = .ok true ∨ ∃ cause, c.holdsOf fact = .error cause := by
  obtain ⟨field, comparator, literal⟩ := c
  cases comparator with
  | greater | less => exact ⟨.text "", .inr ⟨.nonNumericFact field "", rfl⟩⟩
  | equal => exact ⟨.text literal.text, .inl (by simp [holdsOf, Fact.display])⟩

namespace RuleTree

variable {policy : MissingPolicy} {facts facts' : Facts} {tree : RuleTree} {field : String}
  {c : Condition}

/-- A field makes a difference to a rule: there are records with the same facts at all other fields
on which the rule is explained otherwise. -/
def DependsOn (tree : RuleTree) (field : String) : Prop :=
  ∃ policy facts facts', Facts.AgreeOn (· ≠ field) facts facts' ∧
    tree.explain policy facts ≠ tree.explain policy facts'

/-! ## Other fields make no difference -/

theorem outcome_of_agreeOn (h : Facts.AgreeOn (· ∈ tree.fields) facts facts')
    (hc : c ∈ tree.conditions) : c.outcome policy facts = c.outcome policy facts' := by
  rw [Condition.outcome, Condition.outcome, h c.field (mem_fields.2 ⟨c, hc, rfl⟩)]

theorem explain_of_agreeOn (h : Facts.AgreeOn (· ∈ tree.fields) facts facts') :
    tree.explain policy facts = tree.explain policy facts' :=
  explainAt_congr (fun _ hc => outcome_of_agreeOn h hc) []

/-! ## The fields make a difference -/

theorem metConditions_eq_nil_iff {path : List Side} :
    metConditions policy facts path tree = [] ↔
      ∀ c ∈ tree.conditions, c.isMet policy facts = false := by
  simp only [metConditions, ← map_snd_leaves tree, List.map_eq_nil_iff, List.filter_eq_nil_iff,
    List.forall_mem_map, Bool.not_eq_true]

/-- Without any facts no condition is true. -/
theorem explain_empty (tree : RuleTree) :
    ∃ report, tree.explain .noMatch .empty = .ok report ∧ report.matchedConditions = [] := by
  have houtcome : ∀ c : Condition, c.outcome .noMatch .empty = .ok false :=
    fun c => Condition.outcome_noMatch_of_missing rfl
  have hnone : metConditions .noMatch .empty [] tree = [] :=
    metConditions_eq_nil_iff.2 fun c _ => Condition.isMet_of_outcome (houtcome c)
  have hvalue : tree.evaluate .noMatch .empty = .ok (tree.truth fun _ => false) :=
    evaluate_of_outcomes fun c _ => houtcome c
  rw [explain_eq, hvalue]
  exact ⟨_, rfl, hnone⟩

/-- **A decisive fact shows in the report**, whatever else the rule looks at. -/
theorem dependsOn_of_mem (hc : c ∈ tree.conditions) : tree.DependsOn c.field := by
  obtain ⟨fact, hfact⟩ := c.exists_decisive
  have hget : (Facts.empty.insert c.field fact).get? c.field = some fact := by
    rw [Facts.get?_insert, if_pos rfl]
  have hagree : Facts.AgreeOn (· ≠ c.field) .empty (Facts.empty.insert c.field fact) := by
    intro other hother
    rw [Facts.get?_insert, if_neg (Ne.symm hother)]
  refine ⟨.noMatch, _, _, hagree, fun heq => ?_⟩
  obtain ⟨report, hreport, hnone⟩ := explain_empty tree
  have hfaithful := faithful_of_explain (heq ▸ hreport)
  -- the rule is evaluated, so the condition does not fail, and no condition is true
  obtain ⟨v, hv⟩ := (evaluate_eq_ok_iff.1 hfaithful.matched).1 c hc
  have hnil : metConditions .noMatch (Facts.empty.insert c.field fact) [] tree = [] :=
    hfaithful.matchedConditions.symm.trans hnone
  have hmet := metConditions_eq_nil_iff.1 hnil c hc
  rw [Condition.isMet_of_outcome hv] at hmet
  rw [Condition.outcome_of_get? hget] at hv
  obtain htrue | ⟨cause, hfails⟩ := hfact
  · simp [htrue, hmet] at hv
  · simp [hfails] at hv

theorem mem_fields_iff_dependsOn : field ∈ tree.fields ↔ tree.DependsOn field := by
  constructor
  · intro h
    obtain ⟨c, hc, rfl⟩ := mem_fields.1 h
    exact dependsOn_of_mem hc
  · rintro ⟨policy, facts, facts', hagree, hne⟩
    by_contra hnot
    refine hne (explain_of_agreeOn fun other hother => hagree other ?_)
    exact ne_of_mem_of_not_mem hother hnot

/-- **A rule reads its own fields and no others.** Where two records have the same facts at its
fields, it has the same value or error and the same report on both, under either policy. Without a
fact for one of its fields it fails under the strict policy. And its fields are just those that make
a difference to it. -/
theorem reads_own_fields (tree : RuleTree) :
    (∀ policy facts facts', Facts.AgreeOn (· ∈ tree.fields) facts facts' →
      tree.evaluate policy facts = tree.evaluate policy facts' ∧
        tree.explain policy facts = tree.explain policy facts') ∧
    (∀ field ∈ tree.fields, ∀ facts : Facts, facts.get? field = none →
      ∃ cause, tree.evaluate .error facts = .error cause ∧
        tree.explain .error facts = .error cause) ∧
    ∀ field, field ∈ tree.fields ↔ tree.DependsOn field := by
  refine ⟨fun policy facts facts' h => ⟨?_, explain_of_agreeOn h⟩,
    fun field hfield facts hmissing => ?_, fun field => mem_fields_iff_dependsOn⟩
  · exact evaluate_congr fun _ hc => outcome_of_agreeOn h hc
  · obtain ⟨c, hc, rfl⟩ := mem_fields.1 hfield
    obtain ⟨cause, hcause⟩ :=
      exists_evaluate_eq_error hc (Condition.outcome_error_of_missing hmissing)
    exact ⟨cause, hcause, by rw [explain_eq, hcause]; rfl⟩

/-- The rule `city = Rome OR age > 5` is explained alike on two people in Rome with different names.
They have no age, so it fails on them under the strict policy, although it is true of them under the
lenient one. An age would matter to it, and a name does not. -/
theorem reads_own_fields_romanOrRule :
    let ann : Facts := ⟨[("city", .text "Rome"), ("name", .text "Ann")]⟩
    let bob : Facts := ⟨[("name", .text "Bob"), ("city", .text "Rome")]⟩
    Facts.AgreeOn (· ∈ romanOrRule.fields) ann bob ∧
      romanOrRule.evaluate .noMatch ann = .ok true ∧ romanOrRule.evaluate .noMatch bob = .ok true ∧
      romanOrRule.explain .noMatch ann = romanOrRule.explain .noMatch bob ∧
      ("age" ∈ romanOrRule.fields ∧ ann.get? "age" = none ∧
        ∃ cause, romanOrRule.evaluate .error ann = .error cause) ∧
      romanOrRule.DependsOn "age" ∧ ¬ romanOrRule.DependsOn "name" := by
  intro ann bob
  have hfields : romanOrRule.fields = ["age", "city"] := by decide +kernel
  have hagree : Facts.AgreeOn (· ∈ romanOrRule.fields) ann bob := by
    rw [hfields]
    intro field hfield
    obtain rfl | rfl : field = "age" ∨ field = "city" := by simpa using hfield
    · rfl
    · rfl
  have hann : romanOrRule.evaluate .noMatch ann = .ok true := rfl
  have hage : "age" ∈ romanOrRule.fields := by simp [hfields]
  obtain ⟨hsame, hmissing, hexact⟩ := reads_own_fields romanOrRule
  obtain ⟨hvalue, hreport⟩ := hsame .noMatch ann bob hagree
  obtain ⟨cause, hfails, -⟩ := hmissing "age" hage ann rfl
  refine ⟨hagree, hann, hvalue.symm.trans hann, hreport, ⟨hage, rfl, cause, hfails⟩,
    (hexact "age").1 hage, fun hname => ?_⟩
  simpa [hfields] using (hexact "name").2 hname

end RuleTree

end Eligibility
