import Eligibility.RuleTree.Basic
/-!
# Combining rules

Several rules are joined by one connective into one rule, from left to right. `combine` joins them,
and `combinedDepth` says how deep the result will be without building it.
-/

namespace Eligibility.RuleTree

/-- The rules joined from left to right. A single rule stays as it is. -/
def combine (connective : Connective) : List RuleTree → Except ValidationError RuleTree
  | [] => .error .emptyCombination
  | first :: rest => .ok (rest.foldl (join connective) first)

/-- The depth of the joined rules: each further rule puts a new root over what is there. -/
def combinedDepth : List RuleTree → Option Nat
  | [] => none
  | first :: rest => some (rest.foldl (fun level tree => max level tree.depth + 1) first.depth)

/-- The connective that a word stands for. -/
def connectiveOf (word : String) : Except ValidationError Connective :=
  match Connective.ofKeyword? word with
  | some connective => .ok connective
  | none => .error (.unsupportedConnective word)

/-- The rules joined by the connective that a word stands for. -/
def combineWith (word : String) (trees : List RuleTree) : Except ValidationError RuleTree := do
  combine (← connectiveOf word) trees

end Eligibility.RuleTree
