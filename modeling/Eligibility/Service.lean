import Eligibility.Catalog
import Eligibility.Limits
import Eligibility.RuleTree.Combination
import Eligibility.RuleTree.Parser
/-!
# The rule service

The operations on rules under `Limits`: rules come in as texts, as ids of a catalog or as JSON, and
are combined and evaluated. Only `createRule` changes the catalog.

Rule texts are checked by length before they are read, by nesting before the tree is built, and by
their fields after. Trees from outside are checked by depth and by their fields; rules are checked
by depth again before they are evaluated, and combined ones before they are built.
-/

namespace Eligibility.Service

/-- The rule that a text writes. -/
def compile (limits : Limits) (text : String) : Except Failure RuleTree := do
  (limits.checkLength text).mapError .validation
  let tokens ← (Token.scan text).mapError .parse
  (limits.checkNesting tokens).mapError .validation
  let tree ← (RuleTree.ofTokens tokens).mapError .parse
  (limits.checkFields tree).mapError .validation
  return tree

/-- The rule that a JSON value encodes. -/
def decode (limits : Limits) (value : Json) : Except Failure RuleTree := do
  let tree ← (RuleTree.ofJson value).mapError .validation
  (limits.checkDepth tree.depth).mapError .validation
  (limits.checkFields tree).mapError .validation
  return tree

/-! ## Combining -/

/-- Rules combined, if the result is not too deep. -/
def combine (limits : Limits) (connective : String) (trees : List RuleTree) :
    Except Failure RuleTree := do
  match RuleTree.combinedDepth trees with
  | some depth => (limits.checkDepth depth).mapError .validation
  | none => pure ()
  (RuleTree.combineWith connective trees).mapError .validation

/-- The rules that some texts write, combined. -/
def combineTexts (limits : Limits) (connective : String) (texts : List String) :
    Except Failure RuleTree := do
  combine limits connective (← texts.mapM (compile limits))

/-- The rules with some ids, combined. -/
def combineRules (limits : Limits) (catalog : Catalog) (connective : String) (ids : List String) :
    Except Failure RuleTree := do
  let rules ← ids.mapM catalog.require
  combine limits connective (rules.map StoredRule.tree)

/-! ## Evaluating -/

/-- Whether a rule holds of some facts. -/
def evaluate (limits : Limits) (tree : RuleTree) (facts : Facts) : Except Failure Bool := do
  (limits.checkDepth tree.depth).mapError .validation
  (tree.evaluate limits.missingPolicy facts).mapError .evaluation

/-- The report on a rule. -/
def explain (limits : Limits) (tree : RuleTree) (facts : Facts) : Except Failure Report := do
  (limits.checkDepth tree.depth).mapError .validation
  (tree.explain limits.missingPolicy facts).mapError .evaluation

/-- Whether the rule with an id holds of some facts. -/
def evaluateRule (limits : Limits) (catalog : Catalog) (id : String) (facts : Facts) :
    Except Failure Bool := do
  evaluate limits (← catalog.require id).tree facts

/-- Whether the rule that a JSON value encodes holds of the facts that another one is. -/
def evaluateJson (limits : Limits) (tree facts : Json) : Except Failure Bool := do
  let tree ← decode limits tree
  evaluate limits tree (← Facts.ofJson facts)

/-! ## Storing -/

/-- The rule that a text writes, stored under a new id. -/
def createRule (limits : Limits) (catalog : Catalog) (id : String) (now : Timestamp)
    (text : String) : Except Failure (StoredRule × Catalog) := do
  let tree ← compile limits text
  let rule : StoredRule := ⟨id, text, tree, now⟩
  return (rule, catalog.insert rule)

end Eligibility.Service
