import Eligibility.Proofs.RoundTrip.Encoding
import Eligibility.Proofs.RoundTrip.Writable
import Eligibility.Proofs.RuleTree.Combination
import Eligibility.Service
/-!
# The rules that a service lets in

A service lets a rule in if it can be written down and reads allowed fields only (`Limits.Admits`).
Every rule that it compiles or combines is such a rule (`admits_of_compile`,
`admits_of_combineTexts`). A rule that was let in is decoded from its own encoding, unless it is too
deep: the depth is the one thing that `compile` does not look at and that `decode`, `evaluate` and
`explain` do.
-/

namespace Eligibility

namespace Limits

variable {limits : Limits} {tree : RuleTree}

theorem checkLength_eq_ok_iff {text : String} :
    limits.checkLength text = .ok () ↔ text.utf8ByteSize ≤ limits.maxRuleLength := by
  rw [checkLength, ← Nat.not_lt]
  split <;> simp_all

theorem checkNesting_eq_ok_iff {tokens : List Token} :
    limits.checkNesting tokens = .ok () ↔
      Token.nestingDepth tokens ≤ limits.maxNestingDepth := by
  rw [checkNesting, ← Nat.not_lt]
  split <;> simp_all

theorem checkDepth_eq_ok_iff {depth : Nat} :
    limits.checkDepth depth = .ok () ↔ depth ≤ limits.maxTreeDepth := by
  rw [checkDepth, ← Nat.not_lt]
  split <;> simp_all

theorem checkFields_eq_ok_iff :
    limits.checkFields tree = .ok () ↔ ∀ c ∈ tree.conditions, limits.allows c.field = true := by
  have hfind : limits.checkFields tree = .ok () ↔
      (tree.fields.find? fun field => !limits.allows field) = none := by
    unfold checkFields
    split <;> simp_all
  simp only [hfind, List.find?_eq_none, RuleTree.mem_fields]
  simp

/-- The rules that a service lets in, whatever their depth. -/
structure Admits (limits : Limits) (tree : RuleTree) : Prop where
  writable : tree.isWritable = true
  allowed : ∀ c ∈ tree.conditions, limits.allows c.field = true

/-- A rule is let in when each of its conditions could be. -/
theorem admits_iff : limits.Admits tree ↔
    ∀ c ∈ tree.conditions, c.isWritable = true ∧ limits.allows c.field = true := by
  constructor
  · intro h c hc
    exact ⟨List.all_eq_true.1 h.writable c hc, h.allowed c hc⟩
  · intro h
    exact ⟨List.all_eq_true.2 fun c hc => (h c hc).1, fun c hc => (h c hc).2⟩

theorem Admits.combine {connective : Connective} {trees : List RuleTree}
    (h : ∀ tree ∈ trees, limits.Admits tree) (hc : RuleTree.combine connective trees = .ok tree) :
    limits.Admits tree := by
  rw [admits_iff, RuleTree.conditions_of_combine hc]
  intro c hmem
  obtain ⟨part, hpart, hcpart⟩ := List.mem_flatMap.1 hmem
  exact admits_iff.1 (h part hpart) c hcpart

/-- The failure of a rule that is too deep for a service. -/
def tooDeep (limits : Limits) (tree : RuleTree) : Failure :=
  .validation (.treeTooDeep tree.depth limits.maxTreeDepth)

theorem checkDepth_of_le (h : tree.depth ≤ limits.maxTreeDepth) :
    (limits.checkDepth tree.depth).mapError Failure.validation = .ok () := by
  rw [checkDepth, if_neg (Nat.not_lt.2 h)]
  rfl

theorem checkDepth_of_lt (h : limits.maxTreeDepth < tree.depth) :
    (limits.checkDepth tree.depth).mapError Failure.validation = .error (limits.tooDeep tree) := by
  rw [checkDepth, if_pos h]
  rfl

end Limits

namespace Service

variable {limits : Limits} {text : String} {tree : RuleTree}

/-- What a service asks of a rule text. -/
theorem compile_eq_ok_iff :
    compile limits text = .ok tree ↔ limits.checkLength text = .ok () ∧
      ∃ tokens, Token.scan text = .ok tokens ∧ limits.checkNesting tokens = .ok () ∧
        RuleTree.ofTokens tokens = .ok tree ∧ limits.checkFields tree = .ok () := by
  simp [compile]

/-- What a service asks of an encoded rule. -/
theorem decode_eq_ok_iff {value : Json} : decode limits value = .ok tree ↔
    RuleTree.ofJson value = .ok tree ∧ limits.checkDepth tree.depth = .ok () ∧
      limits.checkFields tree = .ok () := by
  simp [decode]

theorem admits_of_compile (h : compile limits text = .ok tree) : limits.Admits tree := by
  obtain ⟨-, tokens, hscan, -, hread, hfields⟩ := compile_eq_ok_iff.1 h
  exact ⟨RuleTree.isWritable_of_scan hscan hread, Limits.checkFields_eq_ok_iff.1 hfields⟩

theorem combineWith_of_combine {connective : String} {trees : List RuleTree}
    (h : combine limits connective trees = .ok tree) :
    RuleTree.combineWith connective trees = .ok tree := by
  unfold combine at h
  split at h
  · simp only [Except.check_bind_eq_ok_iff, Except.mapError_eq_ok_iff] at h
    exact h.2
  · simpa using h

theorem admits_of_combineTexts {connective : String} {texts : List String}
    (h : combineTexts limits connective texts = .ok tree) : limits.Admits tree := by
  obtain ⟨trees, htrees, h⟩ := Except.bind_eq_ok_iff.1 h
  obtain ⟨op, -, hcombine⟩ := Except.bind_eq_ok_iff.1 (combineWith_of_combine h)
  refine Limits.Admits.combine (fun tree htree => ?_) hcombine
  obtain ⟨text, -, hcompile⟩ := Except.exists_of_mem_mapM htrees htree
  exact admits_of_compile hcompile

/-! ## Using a rule -/

/-- **A rule that was let in is decoded from its own encoding**, if it is not too deep. -/
theorem decode_toJson_of_le (h : limits.Admits tree) (hdepth : tree.depth ≤ limits.maxTreeDepth) :
    decode limits tree.toJson = .ok tree := by
  simp [decode, RuleTree.ofJson, RuleTree.ofJsonAt_toJson h.writable,
    Limits.checkDepth_of_le hdepth, Limits.checkFields_eq_ok_iff.2 h.allowed]

theorem decode_toJson_of_lt (h : limits.Admits tree) (hdepth : limits.maxTreeDepth < tree.depth) :
    decode limits tree.toJson = .error (limits.tooDeep tree) := by
  simp [decode, RuleTree.ofJson, RuleTree.ofJsonAt_toJson h.writable,
    Limits.checkDepth_of_lt hdepth]

theorem evaluate_of_le (hdepth : tree.depth ≤ limits.maxTreeDepth) (facts : Facts) :
    evaluate limits tree facts =
      (tree.evaluate limits.missingPolicy facts).mapError .evaluation := by
  simp [evaluate, Limits.checkDepth_of_le hdepth]

theorem evaluate_of_lt (hdepth : limits.maxTreeDepth < tree.depth) (facts : Facts) :
    evaluate limits tree facts = .error (limits.tooDeep tree) := by
  simp [evaluate, Limits.checkDepth_of_lt hdepth]

theorem explain_of_le (hdepth : tree.depth ≤ limits.maxTreeDepth) (facts : Facts) :
    explain limits tree facts =
      (tree.explain limits.missingPolicy facts).mapError .evaluation := by
  simp [explain, Limits.checkDepth_of_le hdepth]

theorem explain_of_lt (hdepth : limits.maxTreeDepth < tree.depth) (facts : Facts) :
    explain limits tree facts = .error (limits.tooDeep tree) := by
  simp [explain, Limits.checkDepth_of_lt hdepth]

end Service

end Eligibility
