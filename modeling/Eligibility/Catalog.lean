import Eligibility.RuleTree.Encoding
import Eligibility.Timestamp.Reader
/-!
# The catalog of rules

A `Catalog` holds rules by id and remembers which was stored last. When that one is removed, the
rule created last among the rest takes its place. `Catalog.list` lists the rules by the time of
their creation, those of one time by their ids.
-/

namespace Eligibility

/-! ## Stored rules -/

/-- A rule in the catalog, with the text it was written as. -/
structure StoredRule where
  id : String
  ruleText : String
  tree : RuleTree
  createdAt : Timestamp
  deriving DecidableEq, Repr

namespace StoredRule

/-- Whether a rule comes before another, or is it, in a listing. -/
def le (a b : StoredRule) : Bool :=
  if a.createdAt = b.createdAt then a.id ≤ b.id else a.createdAt.le b.createdAt

/-- A stored rule from its parts; without a time of creation it is created `now`. -/
def ofParts? (now : Timestamp) (id ruleText tree : Json) (createdAt : Option Json) :
    Option StoredRule := do
  let id ← id.asString?
  let ruleText ← ruleText.asString?
  let tree ← (RuleTree.ofJson tree).toOption
  let createdAt ←
    match createdAt with
    | some time => time.asString? >>= Timestamp.read?
    | none => some now
  return { id, ruleText, tree, createdAt }

/-- The stored rule that a JSON value is: an object of its parts, or an array of them in order. -/
def ofJson? (now : Timestamp) : Json → Option StoredRule
  | .array [id, ruleText, tree] => ofParts? now id ruleText tree none
  | .array [id, ruleText, tree, createdAt] => ofParts? now id ruleText tree (some createdAt)
  | .object members => do
    ofParts? now (← Json.lookup "id" members) (← Json.lookup "rule_text" members)
      (← Json.lookup "ast" members) (Json.lookup "created_at" members)
  | _ => none

/-- A stored rule as a JSON value. -/
def toJson (rule : StoredRule) : Json :=
  .object [("id", .string rule.id), ("rule_text", .string rule.ruleText),
    ("ast", rule.tree.toJson), ("created_at", .string rule.createdAt.display)]

end StoredRule

/-! ## The catalog -/

/-- Rules with distinct ids, and the id of the latest one. -/
structure Catalog where
  rules : List StoredRule
  latestId : Option String
  deriving DecidableEq, Repr

namespace Catalog

/-- The catalog of no rule. -/
def empty : Catalog := ⟨[], none⟩

/-- The number of rules. -/
def size (catalog : Catalog) : Nat := catalog.rules.length

/-- Whether there is no rule. -/
def isEmpty (catalog : Catalog) : Bool := catalog.rules.isEmpty

/-- The rule with an id. -/
def get? (catalog : Catalog) (id : String) : Option StoredRule :=
  catalog.rules.find? fun rule => rule.id == id

/-- The rule with an id, which must be there. -/
def require (catalog : Catalog) (id : String) : Except Failure StoredRule :=
  match catalog.get? id with
  | some rule => .ok rule
  | none => .error (.ruleNotFound id)

/-- Whether there is a rule with an id. -/
def contains (catalog : Catalog) (id : String) : Bool := (catalog.get? id).isSome

/-- The latest rule. -/
def latest? (catalog : Catalog) : Option StoredRule :=
  catalog.latestId.bind catalog.get?

/-- The rules other than the one with an id. -/
def without (catalog : Catalog) (id : String) : List StoredRule :=
  catalog.rules.filter fun rule => rule.id != id

/-- The rules by time of creation, then by id. -/
def sorted (rules : List StoredRule) : List StoredRule :=
  rules.mergeSort StoredRule.le

/-- The rules by time of creation, then by id. -/
def list (catalog : Catalog) : List StoredRule :=
  sorted catalog.rules

/-- The catalog with a rule stored, in place of one with the same id. It becomes the latest. -/
def insert (catalog : Catalog) (rule : StoredRule) : Catalog :=
  ⟨catalog.without rule.id ++ [rule], some rule.id⟩

/-- The rule with an id, and the catalog without it. -/
def remove (catalog : Catalog) (id : String) : Except Failure (StoredRule × Catalog) := do
  let rule ← catalog.require id
  let rest := catalog.without id
  let latestId :=
    if catalog.latestId = some id then (sorted rest).getLast?.map StoredRule.id
    else catalog.latestId
  return (rule, ⟨rest, latestId⟩)

/-! ## Statistics -/

/-- How many rules and conditions a catalog holds. -/
structure Statistics where
  rules : Nat
  conditions : Nat
  deriving DecidableEq, Repr

/-- The conditions per rule, zero if there is no rule. -/
def Statistics.average (statistics : Statistics) : Binary64 :=
  if statistics.rules = 0 then .zero false
  else .ofRatio false statistics.conditions statistics.rules

/-- The statistics of a catalog. -/
def statistics (catalog : Catalog) : Statistics where
  rules := catalog.size
  conditions := catalog.rules.foldl (fun n rule => n + rule.tree.conditionCount) 0

end Catalog

end Eligibility
