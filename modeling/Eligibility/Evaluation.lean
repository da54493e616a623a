import Eligibility.Facts
import Eligibility.RuleTree.Basic
/-!
# Evaluating rules

A condition with `>` or `<` compares numbers, one with `=` compares texts. A rule is evaluated on
both sides of every connective, so that an error anywhere is reported; of several errors the
leftmost one is. `RuleTree.evaluate` gives the verdict, `RuleTree.explain` a report on every node.
-/

namespace Eligibility

/-- What a condition on a field without a fact amounts to. -/
inductive MissingPolicy
  /-- The condition does not hold. -/
  | noMatch
  /-- The evaluation fails. -/
  | error
  deriving DecidableEq, Repr

namespace MissingPolicy

/-- The name of a policy. -/
def name : MissingPolicy → String
  | noMatch => "no_match"
  | error => "error"

/-- The policy with a name. -/
def ofName? (name : String) : Option MissingPolicy :=
  [noMatch, error].find? fun policy => policy.name == name

end MissingPolicy

namespace Condition

/-- Whether a number relation holds between a fact and the literal of a condition. -/
def compare (condition : Condition) (fact : Fact) (relation : Binary64 → Binary64 → Bool) :
    Except EvaluationError Bool :=
  match fact.asNumber? with
  | none => .error (.nonNumericFact condition.field fact.display)
  | some value =>
    match numberOfText? condition.literal.text with
    | none => .error (.nonNumericLiteral condition.field condition.literal.display)
    | some bound => .ok (relation value bound)

/-- Whether a condition holds of a fact. -/
def holdsOf (condition : Condition) (fact : Fact) : Except EvaluationError Bool :=
  match condition.comparator with
  | .greater => condition.compare fact fun value bound => bound.less value
  | .less => condition.compare fact Binary64.less
  | .equal => .ok (fact.display == condition.literal.text)

/-- Whether a condition holds of a fact that may be missing. -/
def holds (policy : MissingPolicy) (condition : Condition) :
    Option Fact → Except EvaluationError Bool
  | some fact => condition.holdsOf fact
  | none =>
    match policy with
    | .noMatch => .ok false
    | .error => .error (.missingField condition.field)

end Condition

/-! ## Reports -/

/-- The outcome of a rule and how it came about: the conditions that hold, from left to right, and
the outcome of every node, children before their parent. -/
structure Report where
  matched : Bool
  matchedConditions : List String
  trace : List String
  deriving DecidableEq, Repr

namespace Report

/-- The name of an outcome. -/
def outcomeName (matched : Bool) : String :=
  if matched then "MATCHED" else "NOT_MATCHED"

/-- The trace line of a node. -/
def line (path : List Side) (node : String) (matched : Bool) : String :=
  pathText path ++ ": " ++ node ++ " => " ++ outcomeName matched

/-- The report on a condition. -/
def ofCondition (path : List Side) (condition : Condition) (matched : Bool) : Report where
  matched := matched
  matchedConditions := if matched then [pathText path ++ ": " ++ condition.display] else []
  trace := [line path condition.display matched]

/-- The report on a connective from those on its two sides. -/
def join (path : List Side) (connective : Connective) (left right : Report) : Report :=
  let matched := connective.apply left.matched right.matched
  { matched
    matchedConditions := left.matchedConditions ++ right.matchedConditions
    trace := left.trace ++ right.trace ++ [line path connective.keyword matched] }

end Report

/-! ## Rules -/

namespace RuleTree

/-- Whether a rule holds of some facts. -/
def evaluate (policy : MissingPolicy) (facts : Facts) : RuleTree → Except EvaluationError Bool
  | condition c => c.holds policy (facts.get? c.field)
  | join connective left right => do
    let leftHolds ← left.evaluate policy facts
    let rightHolds ← right.evaluate policy facts
    return connective.apply leftHolds rightHolds

/-- The report on a rule that stands at a path. -/
def explainAt (policy : MissingPolicy) (facts : Facts) (path : List Side) :
    RuleTree → Except EvaluationError Report
  | condition c => do
    let matched ← c.holds policy (facts.get? c.field)
    return .ofCondition path c matched
  | join connective left right => do
    let leftReport ← left.explainAt policy facts (path ++ [.left])
    let rightReport ← right.explainAt policy facts (path ++ [.right])
    return .join path connective leftReport rightReport

/-- The report on a rule. -/
def explain (policy : MissingPolicy) (facts : Facts) (tree : RuleTree) :
    Except EvaluationError Report :=
  tree.explainAt policy facts []

end RuleTree

end Eligibility
