import Eligibility.Proofs.RoundTrip.Display
import Eligibility.RuleTree.Encoding
/-!
# Encoded rules are decoded

A rule all of whose conditions can be written down is decoded from the JSON value that encodes it
(`ofJson_toJson`). Every condition is flattened to one text there, so that this rests on
`Condition.read_display`; the rest is that a node names its own parts and that no encoded child is
`null`.
-/

namespace Eligibility.RuleTree

variable {type value : String} {left right : Json}

/-! ## The members of a node -/

@[simp] theorem member?_type : (encodeNode type value left right).member? "type" =
    some (.string type) := by
  simp [encodeNode, Json.member?, Json.lookup]

@[simp] theorem member?_value : (encodeNode type value left right).member? "value" =
    some (.string value) := by
  simp [encodeNode, Json.member?, Json.lookup]

@[simp] theorem child?_left : Node.child? .left (encodeNode type value left right) =
    if left.isNull then none else some left := by
  cases h : left.isNull <;> simp [Node.child?, Side.name, encodeNode, Json.member?, Json.lookup, h]

@[simp] theorem child?_right : Node.child? .right (encodeNode type value left right) =
    if right.isNull then none else some right := by
  cases h : right.isNull <;> simp [Node.child?, Side.name, encodeNode, Json.member?, Json.lookup, h]

theorem isNull_toJson (tree : RuleTree) : tree.toJson.isNull = false := by
  cases tree <;> rfl

/-! ## Nodes -/

namespace Node

/-- An object with a type and a value is read by its type. -/
theorem ofJson_eq {members : List (String × Json)}
    (htype : (Json.object members).member? "type" = some (.string type))
    (hvalue : (Json.object members).member? "value" = some (.string value)) :
    ofJson (.object members) =
      if type = "operator" then ofOperator value (.object members)
      else if type = "operand" then ofOperand value (.object members)
      else .error (.unknownType type) := by
  simp [ofJson, htype, hvalue, Json.asString?]

theorem ofJson_toJson_condition {c : Condition} (h : c.isWritable = true) :
    ofJson (RuleTree.condition c).toJson = .ok (.condition c) := by
  rw [toJson, encodeNode, ofJson_eq member?_type member?_value, ← encodeNode,
    if_neg (by decide), if_pos rfl]
  simp [ofOperand, Json.isNull, Condition.read_display h]

theorem ofJson_toJson_join (connective : Connective) (left right : RuleTree) :
    ofJson (RuleTree.join connective left right).toJson =
      .ok (.join connective left.toJson right.toJson) := by
  rw [toJson, encodeNode, ofJson_eq member?_type member?_value, ← encodeNode, if_pos rfl]
  simp [ofOperator, isNull_toJson]

end Node

/-! ## Decoding -/

theorem ofJsonAt_of_condition {path : List Side} {node : Json} {c : Condition}
    (h : Node.ofJson node = .ok (.condition c)) : ofJsonAt path node = .ok (.condition c) := by
  rw [ofJsonAt]
  split <;> simp_all

theorem ofJsonAt_of_join {path : List Side} {node : Json} {connective : Connective}
    {left right : Json} (h : Node.ofJson node = .ok (.join connective left right)) :
    ofJsonAt path node = (do
      let leftTree ← ofJsonAt (path ++ [.left]) left
      let rightTree ← ofJsonAt (path ++ [.right]) right
      return .join connective leftTree rightTree) := by
  rw [ofJsonAt]
  split <;> simp_all

theorem ofJsonAt_toJson {tree : RuleTree} (h : tree.isWritable = true) (path : List Side) :
    ofJsonAt path tree.toJson = .ok tree := by
  induction tree generalizing path with
  | condition c =>
    have hc : c.isWritable = true := by simpa [isWritable, conditions] using h
    exact ofJsonAt_of_condition (Node.ofJson_toJson_condition hc)
  | join connective left right ihl ihr =>
    obtain ⟨hl, hr⟩ := isWritable_join.1 h
    rw [ofJsonAt_of_join (Node.ofJson_toJson_join connective left right), ihl hl, ihr hr]
    rfl

/-- **A rule that can be written down is decoded from the value that encodes it.** -/
theorem ofJson_toJson (tree : RuleTree) (h : tree.isWritable = true) :
    ofJson tree.toJson = .ok tree :=
  ofJsonAt_toJson h []

theorem ofJson_toJson_awkwardRule :
    awkwardRule.isWritable = true ∧ ofJson awkwardRule.toJson = .ok awkwardRule :=
  ⟨isWritable_awkwardRule, ofJson_toJson awkwardRule isWritable_awkwardRule⟩

end Eligibility.RuleTree
