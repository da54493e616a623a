import Eligibility.Proofs.Evaluation.Formula
import Eligibility.Proofs.RuleTree.Fields
import Mathlib.Data.List.Basic
/-!
# Missing facts

Under the lenient policy a condition on a field without a fact is false, under the strict one it
fails. On a field with a fact the policies agree, and a condition fails only when it compares with
something that is no number (`EvaluationError.NonNumeric`).

So the strict evaluation of a rule is the lenient one, unless a missing field ends it
(`RuleTree.evaluate_error_eq_or`). And as a rule has no negation, a fact that was missing can only
make conditions true or fail, so that a rule that is true stays true when more facts are known,
except for failures at the new ones (`RuleTree.evaluate_of_extends`).
-/

namespace Eligibility

/-- `cause.NonNumeric field`: the fact of this field was to be compared with a literal as a number,
and one of the two is none. -/
inductive EvaluationError.NonNumeric (field : String) : EvaluationError → Prop
  | fact (value : String) : NonNumeric field (.nonNumericFact field value)
  | literal (text : String) : NonNumeric field (.nonNumericLiteral field text)

/-! ## Records -/

namespace Facts

/-- `facts'.Extends facts`: the first record has every fact of the second one, and perhaps more. -/
def Extends (facts' facts : Facts) : Prop :=
  ∀ field fact, facts.get? field = some fact → facts'.get? field = some fact

theorem get?_insert (facts : Facts) (field : String) (fact : Fact) (other : String) :
    (facts.insert field fact).get? other =
      if field = other then some fact else facts.get? other := by
  simp only [get?, insert, List.find?_append, List.find?_filter]
  split_ifs with h
  · subst h
    have hnone : facts.entries.find?
        (fun entry => decide ((entry.1 != field) = true ∧ (entry.1 == field) = true)) = none := by
      rw [List.find?_eq_none]
      simp
    rw [hnone]
    simp
  · have hsame : (fun entry : String × Fact =>
        decide ((entry.1 != field) = true ∧ (entry.1 == other) = true)) =
          fun entry => entry.1 == other := by
      funext entry
      by_cases heq : entry.1 = other
      · simp [heq, Ne.symm h]
      · simp [heq]
    rw [hsame]
    simp [h]

/-- A record is extended by a fact of a field that had none. -/
theorem extends_insert {facts : Facts} {field : String} (h : facts.get? field = none)
    (fact : Fact) : (facts.insert field fact).Extends facts := by
  intro other known hknown
  have hne : field ≠ other := by
    rintro rfl
    rw [h] at hknown
    cases hknown
  rw [get?_insert, if_neg hne, hknown]

end Facts

/-! ## Conditions -/

namespace Condition

variable {policy : MissingPolicy} {facts facts' : Facts} {c : Condition} {fact : Fact}
  {cause : EvaluationError}

theorem nonNumeric_of_compare {relation : Binary64 → Binary64 → Bool}
    (h : c.compare fact relation = .error cause) : cause.NonNumeric c.field := by
  unfold compare at h
  split at h
  · obtain rfl := Except.error.inj h
    exact .fact _
  · split at h
    · obtain rfl := Except.error.inj h
      exact .literal _
    · cases h

/-- A condition on a field with a fact fails only because something is no number. -/
theorem nonNumeric_of_holdsOf (h : c.holdsOf fact = .error cause) : cause.NonNumeric c.field := by
  unfold holdsOf at h
  split at h
  · exact nonNumeric_of_compare h
  · exact nonNumeric_of_compare h
  · cases h

theorem outcome_of_get? (h : facts.get? c.field = some fact) :
    c.outcome policy facts = c.holdsOf fact := by
  rw [outcome, h, holds]

theorem outcome_noMatch_of_missing (h : facts.get? c.field = none) :
    c.outcome .noMatch facts = .ok false := by
  rw [outcome, h, holds]

theorem outcome_error_of_missing (h : facts.get? c.field = none) :
    c.outcome .error facts = .error (.missingField c.field) := by
  rw [outcome, h, holds]

theorem nonNumeric_of_outcome (h : c.outcome .noMatch facts = .error cause) :
    cause.NonNumeric c.field := by
  cases hfact : facts.get? c.field with
  | none =>
    rw [outcome_noMatch_of_missing hfact] at h
    cases h
  | some fact => exact nonNumeric_of_holdsOf (outcome_of_get? hfact ▸ h)

/-- Where a condition comes out otherwise when more facts are known, its field was missing. -/
theorem outcome_of_extends (policy : MissingPolicy) (c : Condition) (h : facts'.Extends facts) :
    facts.get? c.field = none ∨ c.outcome policy facts' = c.outcome policy facts := by
  cases hfact : facts.get? c.field with
  | none => exact .inl rfl
  | some fact => exact .inr ((outcome_of_get? (h _ _ hfact)).trans (outcome_of_get? hfact).symm)

end Condition

namespace RuleTree

variable {facts facts' : Facts} {tree : RuleTree} {cause : EvaluationError} {field : String}

/-! ## The two policies -/

/-- **The strict evaluation is the lenient one, unless a missing field ends it.** -/
theorem evaluate_error_eq_or (facts : Facts) (tree : RuleTree) :
    tree.evaluate .error facts = tree.evaluate .noMatch facts ∨
      ∃ c ∈ tree.conditions, facts.get? c.field = none ∧
        tree.evaluate .error facts = .error (.missingField c.field) := by
  induction tree with
  | condition c =>
    cases hfact : facts.get? c.field with
    | none => exact .inr ⟨c, List.mem_cons_self, hfact, Condition.outcome_error_of_missing hfact⟩
    | some fact =>
      exact .inl ((Condition.outcome_of_get? hfact).trans (Condition.outcome_of_get? hfact).symm)
  | join connective left right ihl ihr =>
    simp only [evaluate, conditions]
    rcases ihl with hl | ⟨c, hc, hmissing, hl⟩
    · rw [hl]
      cases left.evaluate .noMatch facts with
      | error cause => exact .inl rfl
      | ok leftValue =>
        rcases ihr with hr | ⟨c, hc, hmissing, hr⟩
        · exact .inl (by rw [hr])
        · exact .inr ⟨c, List.mem_append_right _ hc, hmissing, by rw [hr]; rfl⟩
    · exact .inr ⟨c, List.mem_append_left _ hc, hmissing, by rw [hl]; rfl⟩

/-- The policies agree when no field is said to be missing. -/
theorem evaluate_error_eq (h : ∀ field, tree.evaluate .error facts ≠ .error (.missingField field)) :
    tree.evaluate .error facts = tree.evaluate .noMatch facts := by
  rcases evaluate_error_eq_or facts tree with hsame | ⟨c, -, -, hfails⟩
  · exact hsame
  · exact absurd hfails (h c.field)

/-- The lenient evaluation fails for numbers only. -/
theorem exists_nonNumeric_of_evaluate (h : tree.evaluate .noMatch facts = .error cause) :
    ∃ c ∈ tree.conditions, c.outcome .noMatch facts = .error cause ∧ cause.NonNumeric c.field := by
  obtain ⟨c, hc, houtcome⟩ := exists_of_evaluate_eq_error h
  exact ⟨c, hc, houtcome, Condition.nonNumeric_of_outcome houtcome⟩

/-- The strict evaluation says that a field is missing where one of the rule is. -/
theorem missing_of_evaluate (h : tree.evaluate .error facts = .error (.missingField field)) :
    field ∈ tree.fields ∧ facts.get? field = none := by
  rcases evaluate_error_eq_or facts tree with hsame | ⟨c, hc, hmissing, hfails⟩
  · obtain ⟨c, -, -, hnumber⟩ := exists_nonNumeric_of_evaluate (hsame.symm.trans h)
    cases hnumber
  · rw [h] at hfails
    cases hfails
    exact ⟨mem_fields.2 ⟨c, hc, rfl⟩, hmissing⟩

/-- The strict evaluation has no value where a field of the rule is missing. -/
theorem evaluate_error_ne_ok (hfield : field ∈ tree.fields) (hmissing : facts.get? field = none)
    (value : Bool) : tree.evaluate .error facts ≠ .ok value := by
  obtain ⟨c, hc, rfl⟩ := mem_fields.1 hfield
  obtain ⟨cause, hcause⟩ :=
    exists_evaluate_eq_error hc (Condition.outcome_error_of_missing hmissing)
  rw [hcause]
  nofun

/-- **The two policies differ on missing fields only.** A value of the strict evaluation is the
lenient one too, and so is a failure for a number that is none. All other failures of the strict
evaluation name a field of the rule that is missing, and where one is there is no strict value. The
strict evaluation fails wherever the lenient one does, and with a fact for every field of the rule
the two are the same. -/
theorem evaluate_policies (facts : Facts) (tree : RuleTree) :
    (∀ value, tree.evaluate .error facts = .ok value → tree.evaluate .noMatch facts = .ok value) ∧
    (∀ field cause, cause.NonNumeric field → tree.evaluate .error facts = .error cause →
      tree.evaluate .noMatch facts = .error cause) ∧
    (∀ field, tree.evaluate .error facts = .error (.missingField field) →
      field ∈ tree.fields ∧ facts.get? field = none) ∧
    (∀ field ∈ tree.fields, facts.get? field = none →
      ∀ value, tree.evaluate .error facts ≠ .ok value) ∧
    (∀ cause, tree.evaluate .noMatch facts = .error cause →
      ∃ cause', tree.evaluate .error facts = .error cause') ∧
    ((∀ field ∈ tree.fields, ∃ fact, facts.get? field = some fact) →
      tree.evaluate .error facts = tree.evaluate .noMatch facts) := by
  have hvalue : ∀ value, tree.evaluate .error facts = .ok value →
      tree.evaluate .noMatch facts = .ok value := by
    intro value h
    rw [← evaluate_error_eq (by simp [h]), h]
  refine ⟨hvalue, fun field cause hnumber h => ?_, fun field => missing_of_evaluate,
    fun field hfield hmissing => evaluate_error_ne_ok hfield hmissing, fun cause h => ?_,
    fun hpresent => ?_⟩
  · rw [← evaluate_error_eq (by cases hnumber <;> simp [h]), h]
  · cases hstrict : tree.evaluate .error facts with
    | error cause' => exact ⟨cause', rfl⟩
    | ok value =>
      rw [hvalue value hstrict] at h
      cases h
  · refine evaluate_error_eq fun field h => ?_
    obtain ⟨hfield, hmissing⟩ := missing_of_evaluate h
    obtain ⟨fact, hfact⟩ := hpresent field hfield
    rw [hmissing] at hfact
    cases hfact

/-- The rule `city = Rome AND age > 5`. -/
def romanRule : RuleTree :=
  .join .and (.condition ⟨"city", .equal, .bare "Rome"⟩) (.condition ⟨"age", .greater, .bare "5"⟩)

/-- The rule on a record with both facts, on one whose age is no number, and on one that has no city
either: there the strict evaluation fails for the city, which it looks for first. -/
theorem evaluate_romanRule_policies :
    let complete : Facts := ⟨[("city", .text "Rome"), ("age", .text "7")]⟩
    let ageless : Facts := ⟨[("city", .text "Rome"), ("age", .text "six")]⟩
    let cityless : Facts := ⟨[("age", .text "six")]⟩
    let noAge := EvaluationError.nonNumericFact "age" "six"
    (romanRule.evaluate .error complete = .ok true ∧
        romanRule.evaluate .noMatch complete = .ok true) ∧
      (romanRule.evaluate .error ageless = .error noAge ∧
        romanRule.evaluate .noMatch ageless = .error noAge) ∧
      (romanRule.evaluate .error cityless = .error (.missingField "city") ∧
        "city" ∈ romanRule.fields ∧ cityless.get? "city" = none) := by
  intro complete ageless cityless noAge
  have hstrict : romanRule.evaluate .error complete = .ok true := by decide +kernel
  have hageless : romanRule.evaluate .error ageless = .error noAge := by decide +kernel
  have hcityless : romanRule.evaluate .error cityless = .error (.missingField "city") := rfl
  obtain ⟨hvalue, -⟩ := evaluate_policies complete romanRule
  obtain ⟨-, hnumber, -⟩ := evaluate_policies ageless romanRule
  obtain ⟨-, -, hmissing, -⟩ := evaluate_policies cityless romanRule
  exact ⟨⟨hstrict, hvalue true hstrict⟩, ⟨hageless, hnumber "age" noAge (.fact "six") hageless⟩,
    hcityless, hmissing "city" hcityless⟩

/-! ## More facts -/

/-- A rule that is true stays true with more facts, or fails for a number at a field that was
missing. -/
theorem evaluate_true_of_extends (hextends : facts'.Extends facts)
    (h : tree.evaluate .noMatch facts = .ok true) :
    tree.evaluate .noMatch facts' = .ok true ∨
      ∃ field ∈ tree.fields, facts.get? field = none ∧
        ∃ cause, cause.NonNumeric field ∧ tree.evaluate .noMatch facts' = .error cause := by
  obtain ⟨hall, htruth⟩ := evaluate_eq_ok_iff.1 h
  cases h' : tree.evaluate .noMatch facts' with
  | ok value =>
    refine .inl (congrArg _ ?_)
    rw [← (evaluate_eq_ok_iff.1 h').2]
    refine truth_mono (fun c _ hmet => ?_) htruth
    rcases c.outcome_of_extends .noMatch hextends with hmissing | hsame
    · rw [Condition.isMet_of_outcome (Condition.outcome_noMatch_of_missing hmissing)] at hmet
      cases hmet
    · rwa [Condition.isMet, hsame]
  | error cause =>
    obtain ⟨c, hc, hfails, hnumber⟩ := exists_nonNumeric_of_evaluate h'
    refine .inr ⟨c.field, mem_fields.2 ⟨c, hc, rfl⟩, ?_, cause, hnumber, rfl⟩
    -- a condition whose field was there would have failed before
    refine (c.outcome_of_extends .noMatch hextends).resolve_right fun hsame => ?_
    obtain ⟨v, hv⟩ := hall c hc
    rw [← hsame, hfails] at hv
    cases hv

/-- A rule that fails goes on failing with more facts. -/
theorem evaluate_error_of_extends (hextends : facts'.Extends facts)
    (h : tree.evaluate .noMatch facts = .error cause) :
    ∃ cause', tree.evaluate .noMatch facts' = .error cause' := by
  obtain ⟨c, hc, hfails⟩ := exists_of_evaluate_eq_error h
  have hsame : c.outcome .noMatch facts' = c.outcome .noMatch facts := by
    refine (c.outcome_of_extends .noMatch hextends).resolve_left fun hmissing => ?_
    rw [Condition.outcome_noMatch_of_missing hmissing] at hfails
    cases hfails
  exact exists_evaluate_eq_error hc (hsame.trans hfails)

/-- **More facts make no eligible record ineligible.** Under the lenient policy a rule that is true
of some facts is true of all records that have these facts, or fails there because a number is none
at a field of the rule that was missing. And where it fails, it fails on all such records. -/
theorem evaluate_of_extends (facts facts' : Facts) (hextends : facts'.Extends facts)
    (tree : RuleTree) :
    (tree.evaluate .noMatch facts = .ok true → tree.evaluate .noMatch facts' = .ok true ∨
      ∃ field ∈ tree.fields, facts.get? field = none ∧
        ∃ cause, cause.NonNumeric field ∧ tree.evaluate .noMatch facts' = .error cause) ∧
    ∀ cause, tree.evaluate .noMatch facts = .error cause →
      ∃ cause', tree.evaluate .noMatch facts' = .error cause' :=
  ⟨evaluate_true_of_extends hextends, fun _ => evaluate_error_of_extends hextends⟩

/-- The rule `city = Rome OR age > 5`. -/
def romanOrRule : RuleTree :=
  .join .or (.condition ⟨"city", .equal, .bare "Rome"⟩) (.condition ⟨"age", .greater, .bare "5"⟩)

/-- Someone in Rome is eligible, and still is with an age that is too low. With an age that is no
number the rule fails, and it goes on failing when a name is added. -/
theorem evaluate_romanOrRule_of_extends :
    let roman : Facts := ⟨[("city", .text "Rome")]⟩
    let young := roman.insert "age" (.text "4")
    let ageless := roman.insert "age" (.text "four")
    let named := ageless.insert "name" (.text "Ann")
    (young.Extends roman ∧ ageless.Extends roman ∧ named.Extends ageless) ∧
      romanOrRule.evaluate .noMatch roman = .ok true ∧
      romanOrRule.evaluate .noMatch young = .ok true ∧
      (roman.get? "age" = none ∧
        romanOrRule.evaluate .noMatch ageless = .error (.nonNumericFact "age" "four")) ∧
      ∃ cause, romanOrRule.evaluate .noMatch named = .error cause := by
  intro roman young ageless named
  have hyoung : young.Extends roman := Facts.extends_insert rfl _
  have hageless : ageless.Extends roman := Facts.extends_insert rfl _
  have hnamed : named.Extends ageless := Facts.extends_insert rfl _
  have htrue : romanOrRule.evaluate .noMatch roman = .ok true := rfl
  have hfails : romanOrRule.evaluate .noMatch ageless = .error (.nonNumericFact "age" "four") := by
    decide +kernel
  have hvalue : (romanOrRule.evaluate .noMatch young).isOk = true := by decide +kernel
  refine ⟨⟨hyoung, hageless, hnamed⟩, htrue, ?_, ⟨rfl, hfails⟩,
    (evaluate_of_extends ageless named hnamed romanOrRule).2 _ hfails⟩
  obtain ⟨hmore, -⟩ := evaluate_of_extends roman young hyoung romanOrRule
  rcases hmore htrue with h | ⟨_, -, -, cause, -, h⟩
  · exact h
  · rw [h] at hvalue
    cases hvalue

end RuleTree

end Eligibility
