import Eligibility.Condition
/-!
# Rule trees

A rule is a tree: conditions at the leaves, a connective at every inner node. This module has the
measures of a tree (`height`, `depth`, `conditions`, `fields`) and its written form `display`,
which sets only the parentheses without which another tree would be read.
-/

namespace Eligibility

/-- A rule. -/
inductive RuleTree
  | condition (condition : Condition)
  | join (connective : Connective) (left right : RuleTree)
  deriving DecidableEq, Repr

namespace RuleTree

/-- Whether a rule is a single condition. -/
def isCondition : RuleTree → Bool
  | condition _ => true
  | join .. => false

/-- The conditions from left to right. -/
def conditions : RuleTree → List Condition
  | condition c => [c]
  | join _ left right => left.conditions ++ right.conditions

/-- The number of conditions. -/
def conditionCount : RuleTree → Nat
  | condition _ => 1
  | join _ left right => left.conditionCount + right.conditionCount

/-- The number of nodes. -/
def size : RuleTree → Nat
  | condition _ => 1
  | join _ left right => left.size + right.size + 1

/-! ## Depth -/

/-- The height of a tree: a single condition has height one. -/
def height : RuleTree → Nat
  | condition _ => 1
  | join _ left right => max left.height right.height + 1

/-- The number of nodes of the trees of a work list. -/
def pendingSize : List (RuleTree × Nat) → Nat
  | [] => 0
  | (tree, _) :: pending => tree.size + pendingSize pending

/-- The deepest level of some pending trees, each with the level of its root. The pending trees are
a work list, so that a tree of any shape is walked in constant stack. -/
def deepestLevel (deepest : Nat) : List (RuleTree × Nat) → Nat
  | [] => deepest
  | (condition _, level) :: pending => deepestLevel (max deepest level) pending
  | (join _ left right, level) :: pending =>
    deepestLevel (max deepest level) ((right, level + 1) :: (left, level + 1) :: pending)
termination_by pending => pendingSize pending
decreasing_by
  all_goals simp [pendingSize, size]
  omega

/-- The number of levels of a tree. -/
def depth (tree : RuleTree) : Nat :=
  deepestLevel 0 [(tree, 1)]

/-! ## Fields -/

/-- A strictly increasing list of strings with one more member. Strings are ordered by code points,
which is the order of their UTF-8 bytes. -/
def insertField (field : String) : List String → List String
  | [] => [field]
  | head :: rest =>
    if field < head then field :: head :: rest
    else if field = head then head :: rest
    else head :: insertField field rest

/-- The fields that a rule reads, each once, in increasing order. -/
def fields (tree : RuleTree) : List String :=
  tree.conditions.foldl (fun fields c => insertField c.field fields) []

/-! ## Written form -/

/-- A text in parentheses if they are needed. -/
def parenthesized (needed : Bool) (text : String) : String :=
  if needed then "(" ++ text ++ ")" else text

/-- Whether a child needs parentheses under a connective: it binds more loosely, or it is a right
child that binds equally. -/
def needsParens (parent : Connective) (side : Side) : RuleTree → Bool
  | condition _ => false
  | join connective _ _ =>
    connective.precedence < parent.precedence ||
      (side == .right && connective.precedence == parent.precedence)

/-- The written form of a rule, with as few parentheses as its tree allows. -/
def display : RuleTree → String
  | condition c => c.display
  | join connective left right =>
    parenthesized (needsParens connective .left left) left.display ++
      (" " ++ connective.keyword ++ " ") ++
      parenthesized (needsParens connective .right right) right.display

/-- Whether every condition of a rule can be written down and read again. -/
def isWritable (tree : RuleTree) : Bool :=
  tree.conditions.all Condition.isWritable

end RuleTree

end Eligibility
