import Eligibility.Proofs.RuleTree.Depth
import Eligibility.Proofs.Service.Admission
/-!
# A long flat rule

The text `a > 1 OR a > 1 OR …` has no parentheses, and nine bytes and one level of its tree for
every connective. So the limit on its length is the only one on texts that it can exceed
(`Service.compile_flatRule`), while its tree is as deep as its text is long.
-/

namespace Eligibility

/-! ## Flat token lists -/

theorem Token.nestingFrom_of_flat {tokens : List Token}
    (h : .openParen ∉ tokens.map Token.kind) (depth deepest : Nat) :
    nestingFrom depth deepest tokens = deepest := by
  induction tokens generalizing depth with
  | nil => rfl
  | cons token tokens ih =>
    rw [List.map_cons, List.mem_cons, not_or] at h
    rw [nestingFrom]
    split
    · rename_i hkind
      exact absurd hkind.symm h.1
    · exact ih h.2 _
    · exact ih h.2 _

/-! ## The rule -/

namespace RuleTree

/-- The rule `a > 1 OR a > 1 OR …` with some connectives. -/
def flatRule : Nat → RuleTree
  | 0 => .condition ⟨"a", .greater, .bare "1"⟩
  | joins + 1 => .join .or (flatRule joins) (.condition ⟨"a", .greater, .bare "1"⟩)

theorem isWritable_flatRule (joins : Nat) : (flatRule joins).isWritable = true := by
  induction joins with
  | zero => decide
  | succ joins ih => exact isWritable_join.2 ⟨ih, by decide⟩

theorem depth_flatRule (joins : Nat) : (flatRule joins).depth = joins + 1 := by
  rw [depth_eq_height]
  induction joins with
  | zero => rfl
  | succ joins ih =>
    rw [flatRule, height, ih, height]
    omega

theorem needsParens_flatRule (joins : Nat) : needsParens .or .left (flatRule joins) = false := by
  cases joins <;> rfl

theorem display_flatRule (joins : Nat) :
    (flatRule (joins + 1)).display = (flatRule joins).display ++ " OR a > 1" := by
  rw [flatRule, display, needsParens_flatRule, needsParens, parenthesized, parenthesized,
    if_neg Bool.false_ne_true, if_neg Bool.false_ne_true, String.append_assoc]
  rfl

theorem utf8ByteSize_display_flatRule (joins : Nat) :
    (flatRule joins).display.utf8ByteSize = 9 * joins + 5 := by
  induction joins with
  | zero => decide
  | succ joins ih =>
    have hpiece : " OR a > 1".utf8ByteSize = 9 := by decide
    rw [display_flatRule, String.utf8ByteSize_append, ih, hpiece]
    omega

theorem openParen_not_mem_kinds_flatRule (joins : Nat) : .openParen ∉ (flatRule joins).kinds := by
  induction joins with
  | zero => decide
  | succ joins ih =>
    rw [flatRule, kinds, needsParens_flatRule, needsParens, parenthesizedKinds, parenthesizedKinds,
      if_neg Bool.false_ne_true, if_neg Bool.false_ne_true, List.mem_append, not_or]
    exact ⟨ih, by decide⟩

theorem exists_toList_display_flatRule (joins : Nat) :
    ∃ cs, (flatRule joins).display.toList = 'a' :: cs := by
  induction joins with
  | zero => exact ⟨_, rfl⟩
  | succ joins ih =>
    obtain ⟨cs, hcs⟩ := ih
    exact ⟨_, by rw [display_flatRule, String.toList_append, hcs, List.cons_append]⟩

/-- Without facts no condition of a flat rule holds. -/
theorem evaluate_flatRule (joins : Nat) :
    (flatRule joins).evaluate .noMatch .empty = .ok false := by
  induction joins with
  | zero => rfl
  | succ joins ih =>
    rw [flatRule, evaluate, ih]
    rfl

end RuleTree

/-- A flat rule stored under the id `flat`. -/
def flatStored (joins : Nat) : StoredRule :=
  ⟨"flat", (RuleTree.flatRule joins).display, RuleTree.flatRule joins, ⟨0, 0⟩⟩

namespace Service

/-- The limits of a service that allows no other field than `b`. -/
def guardedLimits : Limits := { Limits.default with allowedAttributes := ["b"] }

/-- **A flat rule is compiled if it is short enough**, by a service that allows every field. -/
theorem compile_flatRule (limits : Limits) (joins : Nat)
    (hlength : 9 * joins + 5 ≤ limits.maxRuleLength) (hall : limits.allowedAttributes = []) :
    compile limits (RuleTree.flatRule joins).display = .ok (RuleTree.flatRule joins) := by
  obtain ⟨tokens, hscan, hkinds⟩ :=
    (RuleTree.spells_display (RuleTree.isWritable_flatRule joins)).scan_eq
  have hflat : .openParen ∉ tokens.map Token.kind :=
    hkinds ▸ RuleTree.openParen_not_mem_kinds_flatRule joins
  refine compile_eq_ok_iff.2 ⟨?_, tokens, hscan, ?_, ?_, ?_⟩
  · rwa [Limits.checkLength_eq_ok_iff, RuleTree.utf8ByteSize_display_flatRule]
  · rw [Limits.checkNesting_eq_ok_iff, Token.nestingDepth, Token.nestingFrom_of_flat hflat]
    exact Nat.zero_le _
  · exact RuleTree.ofTokens_of_derives (hkinds ▸ (RuleTree.derives_kinds _).toExpression)
  · exact Limits.checkFields_eq_ok_iff.2 fun _ _ => by simp [Limits.allows, hall]

/-! ## Its evaluation -/

theorem evaluate_flatRule_of_lt {joins : Nat} (h : joins < 256) :
    evaluate .default (RuleTree.flatRule joins) .empty = .ok false := by
  have hdepth : (RuleTree.flatRule joins).depth ≤ Limits.default.maxTreeDepth := by
    rw [RuleTree.depth_flatRule]
    exact h
  rw [evaluate_of_le hdepth]
  exact congrArg (Except.mapError Failure.evaluation) (RuleTree.evaluate_flatRule joins)

theorem evaluate_flatRule_of_le {joins : Nat} (h : 256 ≤ joins) :
    evaluate .default (RuleTree.flatRule joins) .empty =
      .error (.validation (.treeTooDeep (joins + 1) 256)) := by
  have hdepth : Limits.default.maxTreeDepth < (RuleTree.flatRule joins).depth := by
    rw [RuleTree.depth_flatRule]
    exact Nat.lt_succ_of_le h
  rw [evaluate_of_lt hdepth, Limits.tooDeep, RuleTree.depth_flatRule]
  rfl

end Service

end Eligibility
