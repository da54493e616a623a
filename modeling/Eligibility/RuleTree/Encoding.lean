import Eligibility.Json.Reader
import Eligibility.Json.Writer
import Eligibility.RuleTree.Basic
/-!
# Rules as JSON

A rule is stored as nested JSON objects. An inner node has `type` `operator`, a connective as its
`value`, and its children in `left` and `right`; a leaf has `type` `operand`, the written form of
its condition as its `value`, and no children, which `null` says as well as absence.

`RuleTree.toJson` and `RuleTree.ofJson` go between rules and values, `render` and `read` between
rules and texts. A node is checked as a whole (`Node.ofJson`) before its children are looked at,
the left one first, and the first fault is reported with the path to its node.
-/

namespace Eligibility.RuleTree

/-! ## Encoding -/

/-- The object of one node. Its members are in the order of their names. -/
def encodeNode (type value : String) (left right : Json) : Json :=
  .object [("left", left), ("right", right), ("type", .string type), ("value", .string value)]

/-- A rule as a JSON value. -/
def toJson : RuleTree → Json
  | condition c => encodeNode "operand" c.display .null .null
  | join connective left right =>
    encodeNode "operator" connective.keyword left.toJson right.toJson

/-- A rule as a JSON text. -/
def render (tree : RuleTree) : String :=
  tree.toJson.render

/-! ## One node -/

/-- A node of an encoded rule whose children have not been looked at. -/
inductive Node
  | condition (condition : Condition)
  | join (connective : Connective) (left right : Json)

namespace Node

/-- The child of a side, where `null` is no child. -/
def child? (side : Side) (node : Json) : Option Json :=
  (node.member? side.name).filter fun child => !child.isNull

/-- An inner node with its connective and its children. -/
def ofOperator (value : String) (node : Json) : Except NodeFault Node :=
  match Connective.ofKeyword? value with
  | none => .error (.unknownConnective value)
  | some connective =>
    match child? .left node with
    | none => .error (.missingChild .left)
    | some left =>
      match child? .right node with
      | none => .error (.missingChild .right)
      | some right => .ok (.join connective left right)

/-- A leaf with its condition. -/
def ofOperand (value : String) (node : Json) : Except NodeFault Node :=
  if (child? .left node).isSome || (child? .right node).isSome then .error .unexpectedChild
  else
    match Condition.read value with
    | .error cause => .error (.badCondition value cause)
    | .ok c => .ok (.condition c)

/-- The node that a value is, apart from the content of its children. -/
def ofJson (node : Json) : Except NodeFault Node :=
  match node with
  | .object _ =>
    match (node.member? "type").bind Json.asString? with
    | none => .error .missingType
    | some type =>
      match (node.member? "value").bind Json.asString? with
      | none => .error .missingValue
      | some value =>
        if type = "operator" then ofOperator value node
        else if type = "operand" then ofOperand value node
        else .error (.unknownType type)
  | other => .error (.notObject other.kindName)

/-! ### Children are smaller -/

theorem mem_of_lookup {name : String} {members : List (String × Json)} {value : Json}
    (h : Json.lookup name members = some value) : ∃ key, (key, value) ∈ members := by
  obtain ⟨member, hfind, rfl⟩ := Option.map_eq_some_iff.1 h
  exact ⟨member.1, List.mem_reverse.1 (List.mem_of_find?_eq_some hfind)⟩

theorem sizeOf_member {name : String} {node value : Json} (h : node.member? name = some value) :
    sizeOf value < sizeOf node := by
  cases node with
  | object members =>
    obtain ⟨key, hmem⟩ := mem_of_lookup h
    have := List.sizeOf_lt_of_mem hmem
    simp only [Prod.mk.sizeOf_spec, Json.object.sizeOf_spec] at *
    omega
  | _ => simp [Json.member?] at h

theorem sizeOf_child {side : Side} {node child : Json} (h : child? side node = some child) :
    sizeOf child < sizeOf node :=
  sizeOf_member (Option.filter_eq_some_iff.1 h).1

theorem child_of_ofJson {node left right : Json} {connective : Connective}
    (h : ofJson node = .ok (.join connective left right)) :
    child? .left node = some left ∧ child? .right node = some right := by
  have leaf : ∀ value, ofOperand value node ≠ .ok (.join connective left right) := by
    intro value
    unfold ofOperand
    repeat' split
    all_goals simp
  have inner : ∀ value, ofOperator value node = .ok (.join connective left right) →
      child? .left node = some left ∧ child? .right node = some right := by
    intro value
    unfold ofOperator
    repeat' split
    all_goals simp_all
  unfold ofJson at h
  split at h
  · split at h
    · simp at h
    · split at h
      · simp at h
      · split at h
        · exact inner _ h
        · split at h
          · exact absurd h (leaf _)
          · simp at h
  · simp at h

end Node

/-! ## Decoding -/

/-- The rule that a value at a path encodes. -/
def ofJsonAt (path : List Side) (node : Json) : Except ValidationError RuleTree :=
  match _h : Node.ofJson node with
  | .error fault => .error (.malformedNode path fault)
  | .ok (.condition c) => .ok (.condition c)
  | .ok (.join connective left right) => do
    let leftTree ← ofJsonAt (path ++ [.left]) left
    let rightTree ← ofJsonAt (path ++ [.right]) right
    return .join connective leftTree rightTree
termination_by sizeOf node
decreasing_by
  · exact Node.sizeOf_child (Node.child_of_ofJson _h).1
  · exact Node.sizeOf_child (Node.child_of_ofJson _h).2

/-- The rule that a value encodes. -/
def ofJson (value : Json) : Except ValidationError RuleTree :=
  ofJsonAt [] value

/-- The rule that a JSON text encodes. -/
def read (text : String) : Except ValidationError RuleTree :=
  match Json.read? text with
  | none => .error (.malformedNode [] .invalidJson)
  | some value => ofJson value

end Eligibility.RuleTree
