import Eligibility.Proofs.Grammar.Reader
import Eligibility.Proofs.Token.Spelling
/-!
# Written rules are read again

A condition that can be written down is read back from its written form (`read_display`), and so is
a rule all of whose conditions can be (`compile_display`).

The written form of a rule spells the tokens `RuleTree.kinds`: words and quoted strings are cut
where they were joined, whatever they hold. These tokens derive the rule, and the reader reads what
they derive.
-/

namespace Eligibility

open Token

/-! ## Conditions -/

theorem Literal.spells_display {literal : Literal} (h : literal.isWritable = true) :
    Spells literal.display [literal.kind] := by
  cases literal with
  | bare text => exact .word h
  | quoted text => exact .quoted h

namespace Condition

theorem spells_display {c : Condition} (h : c.isWritable = true) : Spells c.display c.kinds := by
  obtain ⟨hfield, hliteral⟩ := Bool.and_eq_true_iff.1 h
  exact ((Spells.word hfield).spaced (.comparator c.comparator)).spaced
    (Literal.spells_display hliteral)

/-- A condition that can be written down is read again. -/
theorem read_display {c : Condition} (h : c.isWritable = true) : read c.display = .ok c := by
  obtain ⟨tokens, hscan, hkinds⟩ := (spells_display h).scan_eq
  rw [read, hscan]
  exact ofTokens_eq_ok_iff_kinds.2 hkinds

end Condition

/-! ## Rules -/

namespace RuleTree

theorem isWritable_join {connective : Connective} {left right : RuleTree} :
    (join connective left right).isWritable = true ↔
      left.isWritable = true ∧ right.isWritable = true := by
  simp [isWritable, conditions, List.all_append]

theorem spells_parenthesized {text : String} {kinds : List Kind} (h : Spells text kinds)
    (needed : Bool) : Spells (parenthesized needed text) (parenthesizedKinds needed kinds) := by
  cases needed with
  | false => exact h
  | true => exact h.parenthesized

theorem spells_display {tree : RuleTree} (h : tree.isWritable = true) :
    Spells tree.display tree.kinds := by
  induction tree with
  | condition c => exact Condition.spells_display (by simpa [isWritable, conditions] using h)
  | join connective left right ihl ihr =>
    obtain ⟨hl, hr⟩ := isWritable_join.1 h
    have hleft := spells_parenthesized (ihl hl) (needsParens connective .left left)
    have hright := spells_parenthesized (ihr hr) (needsParens connective .right right)
    have hspells := (hleft.spaced (.connective connective)).spaced hright
    simpa [display, kinds, String.append_assoc] using hspells

/-- **A rule that can be written down is read again from its written form.** -/
theorem compile_display (tree : RuleTree) (h : tree.isWritable = true) :
    compile tree.display = .ok tree := by
  obtain ⟨tokens, hscan, hkinds⟩ := (spells_display h).scan_eq
  rw [compile, hscan]
  exact ofTokens_of_derives (hkinds ▸ (derives_kinds tree).toExpression)

/-- The rule `(name = 'Ann (AND) "\' OR id = '007') AND (id > 007 AND cafés < a'b)`, with a tab and
a null character after the name. Both pairs of parentheses are needed. -/
def awkwardRule : RuleTree :=
  .join .and
    (.join .or (.condition ⟨"name", .equal, .quoted "Ann (AND) \"\\\t\x00"⟩)
      (.condition ⟨"id", .equal, .quoted "007"⟩))
    (.join .and (.condition ⟨"id", .greater, .bare "007"⟩)
      (.condition ⟨"cafés", .less, .bare "a'b"⟩))

theorem isWritable_awkwardRule : awkwardRule.isWritable = true := by decide

theorem compile_display_awkwardRule :
    awkwardRule.isWritable = true ∧ compile awkwardRule.display = .ok awkwardRule :=
  ⟨isWritable_awkwardRule, compile_display awkwardRule isWritable_awkwardRule⟩

end RuleTree

end Eligibility
