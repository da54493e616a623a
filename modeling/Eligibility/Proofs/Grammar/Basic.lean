import Eligibility.Proofs.Outcome
import Eligibility.RuleTree.Basic
/-!
# The grammar of rules

The language of rules is given by three categories of phrases:

* an expression is a term, or an expression, `OR` and a term;
* a term is a factor, or a term, `AND` and a factor;
* a factor is a condition (a word, a comparator, and a word or a quoted string), or an expression
  in parentheses.

`Derives category kinds tree` says that some tokens form a phrase of a category, and which rule
they stand for: `OR` and `AND` build a join, a condition builds itself, parentheses build nothing.

`RuleTree.kinds` are the tokens of the written form of a rule. They derive that rule
(`derives_kinds`): the parentheses that `needsParens` asks for suffice for every child to be a
phrase of the category its place requires.
-/

namespace Eligibility

open Token (Kind)

/-! ## Conditions -/

namespace Condition

/-- The tokens of a condition, without their places. -/
def kinds (c : Condition) : List Kind :=
  [.word c.field, .comparator c.comparator, c.literal.kind]

theorem comparatorOf_eq_ok_iff {field : String} {token : Token} {comparator : Comparator} :
    comparatorOf field token = .ok comparator ↔ token.kind = .comparator comparator := by
  unfold comparatorOf
  split <;> simp_all

theorem literalOf_eq_ok_iff {field : String} {token : Token} {literal : Literal} :
    literalOf field token = .ok literal ↔ token.kind = literal.kind := by
  unfold literalOf
  cases literal <;> split <;> simp_all [Literal.kind]

/-- **A token list is a condition** just when it has the three kinds of the condition. -/
theorem ofTokens_eq_ok_iff_kinds {c : Condition} {tokens : List Token} :
    ofTokens tokens = .ok c ↔ tokens.map Token.kind = c.kinds := by
  constructor
  · intro h
    rcases tokens with _ | ⟨⟨kind, offset⟩, _ | ⟨second, rest⟩⟩
    · simp [ofTokens] at h
    · cases kind <;> simp [ofTokens] at h
    · cases kind with
      | word field =>
        obtain ⟨comparator, hsecond, h⟩ := Except.bind_eq_ok_iff.1 h
        rcases rest with _ | ⟨third, _ | ⟨extra, rest⟩⟩
        · simp at h
        · obtain ⟨literal, hthird, h⟩ := Except.bind_eq_ok_iff.1 h
          obtain rfl := Except.ok.inj h
          simp [kinds, comparatorOf_eq_ok_iff.1 hsecond, literalOf_eq_ok_iff.1 hthird]
        · obtain ⟨literal, -, h⟩ := Except.bind_eq_ok_iff.1 h
          simp at h
      | openParen | closeParen | connective _ | comparator _ | quoted _ =>
        simp [ofTokens] at h
  · intro h
    obtain ⟨⟨_, _⟩, rest, rfl, rfl, h₁⟩ := List.map_eq_cons_iff.1 h
    obtain ⟨second, rest, rfl, hsecond, h₂⟩ := List.map_eq_cons_iff.1 h₁
    obtain ⟨third, rest, rfl, hthird, h₃⟩ := List.map_eq_cons_iff.1 h₂
    obtain rfl := List.map_eq_nil_iff.1 h₃
    simp [ofTokens, comparatorOf_eq_ok_iff.2 hsecond, literalOf_eq_ok_iff.2 hthird]

theorem read_eq_ok_iff {text : String} {c : Condition} :
    read text = .ok c ↔
      ∃ tokens, Token.scan text = .ok tokens ∧ tokens.map Token.kind = c.kinds := by
  simp only [read, Except.bind_eq_ok_iff, ofTokens_eq_ok_iff_kinds]

end Condition

/-! ## Phrases -/

namespace RuleTree

/-- The categories of phrases, the loosest first. -/
inductive Category
  | expression
  | term
  | factor
  deriving DecidableEq, Repr

/-- `Derives category kinds tree`: the tokens `kinds` are a phrase of a category, and `tree` is the
rule it stands for. -/
inductive Derives : Category → List Kind → RuleTree → Prop
  | ofTerm {kinds : List Kind} {tree : RuleTree} :
    Derives .term kinds tree → Derives .expression kinds tree
  | or {kinds kinds' : List Kind} {left right : RuleTree} :
    Derives .expression kinds left → Derives .term kinds' right →
      Derives .expression (kinds ++ .connective .or :: kinds') (.join .or left right)
  | ofFactor {kinds : List Kind} {tree : RuleTree} :
    Derives .factor kinds tree → Derives .term kinds tree
  | and {kinds kinds' : List Kind} {left right : RuleTree} :
    Derives .term kinds left → Derives .factor kinds' right →
      Derives .term (kinds ++ .connective .and :: kinds') (.join .and left right)
  | condition (c : Condition) : Derives .factor c.kinds (.condition c)
  | group {kinds : List Kind} {tree : RuleTree} :
    Derives .expression kinds tree → Derives .factor (.openParen :: kinds ++ [.closeParen]) tree

namespace Derives

/-- No phrase is empty. -/
theorem ne_nil {category : Category} {kinds : List Kind} {tree : RuleTree}
    (h : Derives category kinds tree) : kinds ≠ [] := by
  induction h <;> simp_all [Condition.kinds]

/-- A factor is a phrase of every category. -/
theorem loosen {kinds : List Kind} {tree : RuleTree} (h : Derives .factor kinds tree) :
    ∀ category, Derives category kinds tree
  | .expression => .ofTerm (.ofFactor h)
  | .term => .ofFactor h
  | .factor => h

end Derives

/-! ## The tokens of the written form -/

/-- Some tokens in parentheses if they are needed. -/
def parenthesizedKinds (needed : Bool) (kinds : List Kind) : List Kind :=
  if needed then .openParen :: kinds ++ [.closeParen] else kinds

/-- The tokens of the written form of a rule, without their places. -/
def kinds : RuleTree → List Kind
  | condition c => c.kinds
  | join connective left right =>
    parenthesizedKinds (needsParens connective .left left) left.kinds ++
      .connective connective ::
        parenthesizedKinds (needsParens connective .right right) right.kinds

/-- The tightest category of which a rule is a phrase without parentheses around it. -/
def category : RuleTree → Category
  | condition _ => .factor
  | join .and _ _ => .term
  | join .or _ _ => .expression

/-- The category that a child has to be a phrase of. -/
def childCategory : Connective → Side → Category
  | .or, .left => .expression
  | .or, .right => .term
  | .and, .left => .term
  | .and, .right => .factor

/-- A join may stand on the left of its own connective. -/
theorem category_join (connective : Connective) (left right : RuleTree) :
    (join connective left right).category = childCategory connective .left := by
  cases connective <;> rfl

/-- Two phrases of the categories that a connective requires make up a phrase with it between them,
which may stand on its left again. -/
theorem Derives.join {connective : Connective} {kinds kinds' : List Kind} {left right : RuleTree}
    (hl : Derives (childCategory connective .left) kinds left)
    (hr : Derives (childCategory connective .right) kinds' right) :
    Derives (childCategory connective .left) (kinds ++ .connective connective :: kinds')
      (.join connective left right) := by
  cases connective with
  | and => exact .and hl hr
  | or => exact .or hl hr

/-- What may stand on the left of a connective is an expression. -/
theorem Derives.ofLeft {connective : Connective} {kinds : List Kind} {tree : RuleTree}
    (h : Derives (childCategory connective .left) kinds tree) : Derives .expression kinds tree := by
  cases connective with
  | and => exact .ofTerm h
  | or => exact h

theorem Derives.toExpression {tree : RuleTree} {kinds : List Kind}
    (h : Derives tree.category kinds tree) : Derives .expression kinds tree := by
  cases tree with
  | condition c => exact h.loosen _
  | join connective left right =>
    rw [category_join] at h
    exact h.ofLeft

/-- A child in the parentheses it needs is a phrase of the category its place requires. -/
theorem derives_parenthesizedKinds {tree : RuleTree} {kinds : List Kind}
    (h : Derives tree.category kinds tree) (parent : Connective) (side : Side) :
    Derives (childCategory parent side)
      (parenthesizedKinds (needsParens parent side tree) kinds) tree := by
  cases hp : needsParens parent side tree with
  | true => exact (Derives.group h.toExpression).loosen _
  | false =>
    cases tree with
    | condition c => exact h.loosen _
    | join connective left right =>
      -- without parentheses a join stands on the left of its own connective, or under `OR`
      cases connective <;> cases parent <;> cases side <;>
        first
          | exact h
          | exact .ofTerm h
          | exact absurd hp (by simp [needsParens, Connective.precedence])

/-- **The written form derives its rule.** -/
theorem derives_kinds (tree : RuleTree) : Derives tree.category tree.kinds tree := by
  induction tree with
  | condition c => exact .condition c
  | join connective left right ihl ihr =>
    have hl := derives_parenthesizedKinds ihl connective .left
    have hr := derives_parenthesizedKinds ihr connective .right
    rw [category_join]
    exact hl.join hr

end RuleTree

end Eligibility
