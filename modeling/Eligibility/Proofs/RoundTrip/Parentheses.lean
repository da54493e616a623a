import Eligibility.Proofs.RoundTrip.Display
import Mathlib.Data.List.Basic
/-!
# Fewest parentheses

No text of a rule has fewer opening parentheses than the written form of the rule
(`display_fewest_parens`).

The written form has one pair for each child that `needsParens` asks it for (`neededGroups`,
`count_kinds`). A child needs them when it is no phrase of the category its place requires without
parentheses around it (`needsParens_eq`). So whatever tokens derive the rule, the phrase of such a
child is a group of its own: the induction on the derivation counts the groups within a phrase and
one more if the phrase has to be a group itself (`Derives.neededGroups_le`).
-/

namespace Eligibility.RuleTree

open Token (Kind)

variable {category : Category} {connective : Connective} {side : Side} {kinds : List Kind}
  {tree : RuleTree}

/-! ## The pairs of the written form -/

/-- The number of children of a rule that need parentheses, the children of children included. -/
def neededGroups : RuleTree → Nat
  | condition _ => 0
  | join connective left right =>
    ((needsParens connective .left left).toNat + left.neededGroups) +
      ((needsParens connective .right right).toNat + right.neededGroups)

theorem count_condition (c : Condition) : c.kinds.count .openParen = 0 := by
  obtain ⟨field, comparator, literal⟩ := c
  cases literal <;> rfl

theorem count_parenthesizedKinds (needed : Bool) (kinds : List Kind) :
    (parenthesizedKinds needed kinds).count .openParen = needed.toNat + kinds.count .openParen := by
  cases needed <;> simp [parenthesizedKinds, List.count_append, Nat.add_comm]

theorem count_connective (connective : Connective) (kinds kinds' : List Kind) :
    (kinds ++ .connective connective :: kinds').count .openParen =
      kinds.count .openParen + kinds'.count .openParen := by
  simp [List.count_append]

/-- The written form has one pair of parentheses for each child that needs them. -/
theorem count_kinds (tree : RuleTree) : tree.kinds.count .openParen = tree.neededGroups := by
  induction tree with
  | condition c => exact count_condition c
  | join connective left right ihl ihr =>
    rw [kinds, count_connective, count_parenthesizedKinds, count_parenthesizedKinds, ihl, ihr,
      neededGroups]

/-! ## The groups of a derivation -/

/-- Whether a rule is a phrase of a category only in parentheses. -/
def needsGroup (category : Category) (tree : RuleTree) : Bool :=
  tree.category.strength < category.strength

/-- A child needs parentheses when the category of its place does not admit it without. -/
theorem needsParens_eq (connective : Connective) (side : Side) (tree : RuleTree) :
    needsParens connective side tree = needsGroup (childCategory connective side) tree := by
  cases tree with
  | condition c => cases connective <;> cases side <;> rfl
  | join inner left right => cases connective <;> cases side <;> cases inner <;> rfl

theorem needsGroup_expression (tree : RuleTree) : needsGroup .expression tree = false := by
  cases tree with
  | condition c => rfl
  | join connective left right => cases connective <;> rfl

/-- A looser category admits more. -/
theorem needsGroup_mono {loose tight : Category} (hle : loose.strength ≤ tight.strength)
    (tree : RuleTree) : (needsGroup loose tree).toNat ≤ (needsGroup tight tree).toNat := by
  unfold needsGroup
  by_cases hloose : tree.category.strength < loose.strength
  · have htight : tree.category.strength < tight.strength := Nat.lt_of_lt_of_le hloose hle
    simp [hloose, htight]
  · simp [hloose]

/-- The phrases on the two sides of a connective have a group for each child that needs one. -/
theorem neededGroups_join_le {kinds kinds' : List Kind} {left right : RuleTree}
    (hl : (needsGroup (childCategory connective .left) left).toNat + left.neededGroups ≤
      kinds.count .openParen)
    (hr : (needsGroup (childCategory connective .right) right).toNat + right.neededGroups ≤
      kinds'.count .openParen) :
    (join connective left right).neededGroups ≤
      (kinds ++ .connective connective :: kinds').count .openParen := by
  rw [neededGroups, needsParens_eq, needsParens_eq, count_connective]
  exact Nat.add_le_add hl hr

/-- **Whatever tokens derive a rule**, they have a group for each child that needs one, and one more
where the rule itself does. -/
theorem Derives.neededGroups_le (h : Derives category kinds tree) :
    (needsGroup category tree).toNat + tree.neededGroups ≤ kinds.count .openParen := by
  induction h with
  | @ofTerm kinds tree _ ih =>
    have hmono : (needsGroup .expression tree).toNat ≤ (needsGroup .term tree).toNat :=
      needsGroup_mono (by decide) tree
    omega
  | @ofFactor kinds tree _ ih =>
    have hmono : (needsGroup .term tree).toNat ≤ (needsGroup .factor tree).toNat :=
      needsGroup_mono (by decide) tree
    omega
  | @or _ _ left right _ _ ihl ihr =>
    have hfits : needsGroup .expression (.join .or left right) = false := rfl
    rw [hfits, Bool.toNat_false, Nat.zero_add]
    exact neededGroups_join_le ihl ihr
  | @and _ _ left right _ _ ihl ihr =>
    have hfits : needsGroup .term (.join .and left right) = false := rfl
    rw [hfits, Bool.toNat_false, Nat.zero_add]
    exact neededGroups_join_le ihl ihr
  | condition c => simp [needsGroup, RuleTree.category, Category.strength, neededGroups]
  | @group kinds tree _ ih =>
    have hone := Bool.toNat_le (needsGroup .factor tree)
    rw [needsGroup_expression] at ih
    simp only [Bool.toNat_false, List.cons_append, List.count_cons_self, List.count_append] at ih ⊢
    omega

/-! ## Texts -/

/-- The number of opening parentheses among some tokens. -/
def openParens (tokens : List Token) : Nat :=
  (tokens.map Token.kind).count .openParen

/-- **The written form of a rule has the fewest parentheses** of all texts that are compiled to the
rule. -/
theorem display_fewest_parens (tree : RuleTree) (h : tree.isWritable = true) :
    ∃ shown, Token.scan tree.display = .ok shown ∧ compile tree.display = .ok tree ∧
      ∀ text, compile text = .ok tree →
        ∃ tokens, Token.scan text = .ok tokens ∧ openParens shown ≤ openParens tokens := by
  obtain ⟨shown, hscan, hkinds⟩ := (spells_display h).scan_eq
  have hshown : Derives .expression (shown.map Token.kind) tree :=
    hkinds ▸ (derives_kinds tree).toExpression
  refine ⟨shown, hscan, compile_eq_ok_iff.2 ⟨shown, hscan, hshown⟩, fun text htext => ?_⟩
  obtain ⟨tokens, htokens, hderives⟩ := compile_eq_ok_iff.1 htext
  refine ⟨tokens, htokens, ?_⟩
  rw [openParens, hkinds, count_kinds]
  exact Nat.le_trans (Nat.le_add_left ..) hderives.neededGroups_le

/-- The rule `(a > 1 OR b > 2) AND (c = '(' AND d > 4)`. Both pairs of parentheses are needed. -/
def groupedRule : RuleTree :=
  .join .and
    (.join .or (.condition ⟨"a", .greater, .bare "1"⟩) (.condition ⟨"b", .greater, .bare "2"⟩))
    (.join .and (.condition ⟨"c", .equal, .quoted "("⟩) (.condition ⟨"d", .greater, .bare "4"⟩))

/-- The rule `groupedRule`, written as such, and with parentheses around its first condition and
around the whole of it as well. -/
theorem display_fewest_parens_groupedRule :
    groupedRule.isWritable = true ∧
      compile "(((a > 1) OR b > 2) AND (c = '(' AND d > 4))" = .ok groupedRule ∧
      ∃ shown tokens,
        Token.scan "(a > 1 OR b > 2) AND (c = '(' AND d > 4)" = .ok shown ∧
        Token.scan "(((a > 1) OR b > 2) AND (c = '(' AND d > 4))" = .ok tokens ∧
        openParens shown ≤ openParens tokens := by
  have hwritable : groupedRule.isWritable = true := by decide
  have htext : compile "(((a > 1) OR b > 2) AND (c = '(' AND d > 4))" = .ok groupedRule := by
    decide +kernel
  obtain ⟨shown, hscan, -, hfewest⟩ := display_fewest_parens groupedRule hwritable
  obtain ⟨tokens, htokens, hle⟩ := hfewest _ htext
  exact ⟨hwritable, htext, shown, tokens, hscan, htokens, hle⟩

end Eligibility.RuleTree
