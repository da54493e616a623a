import Eligibility.Proofs.RoundTrip.Encoding
import Eligibility.Proofs.RoundTrip.Writable
import Mathlib.Data.List.Basic
/-!
# The values that encode a rule

`Denotes value tree` says in full which values are read as a rule: an object that is an inner node
with two encoded children, or a leaf without children whose text falls into the three tokens of a
condition. Decoding succeeds on these values and on no others (`ofJson_eq_ok_iff_denotes`), members
under other names are not looked at (`Padded.ofJson_eq`), and what is decoded can be encoded again.
-/

namespace Eligibility

theorem Connective.ofKeyword?_eq_some_iff {word : String} {connective : Connective} :
    ofKeyword? word = some connective ↔ word = connective.keyword :=
  ⟨eq_keyword_of_ofKeyword?, fun h => h ▸ ofKeyword?_keyword connective⟩

namespace Json

theorem isNull_eq_true_iff {value : Json} : value.isNull = true ↔ value = .null := by
  cases value <;> simp [isNull]

theorem bind_asString?_eq_some_iff {value? : Option Json} {text : String} :
    value?.bind asString? = some text ↔ value? = some (.string text) := by
  cases value? with
  | none => simp
  | some value => cases value <;> simp [asString?]

/-! ## Looking up -/

variable {name other : String} {before after : List (String × Json)}

/-- Members behind come first when a name is looked up. -/
theorem lookup_append (name : String) (before after : List (String × Json)) :
    lookup name (before ++ after) = (lookup name after).or (lookup name before) := by
  rw [lookup, List.reverse_append, List.find?_append, Option.map_or]
  rfl

theorem lookup_cons (name other : String) (value : Json) (after : List (String × Json)) :
    lookup name ((other, value) :: after) =
      (lookup name after).or (if other = name then some value else none) := by
  rw [← List.singleton_append, lookup_append]
  by_cases h : other = name <;> simp [lookup, h]

/-- A member under another name does not matter. -/
theorem lookup_of_ne (h : other ≠ name) (value : Json) :
    lookup name (before ++ (other, value) :: after) = lookup name (before ++ after) := by
  rw [lookup_append, lookup_append, lookup_cons, if_neg h, Option.or_none]

/-- What is looked up when one member has either of two values: the same, or just these. -/
theorem lookup_replace (name other : String) (value value' : Json) :
    lookup name (before ++ (other, value) :: after) =
        lookup name (before ++ (other, value') :: after) ∨
      lookup name (before ++ (other, value) :: after) = some value ∧
        lookup name (before ++ (other, value') :: after) = some value' := by
  rw [lookup_append, lookup_append, lookup_cons, lookup_cons]
  cases lookup name after with
  | some found => simp
  | none => by_cases h : other = name <;> simp [h]

end Json

namespace RuleTree

/-! ## One node -/

namespace Node

variable {node left right : Json} {side : Side} {connective : Connective} {c : Condition}
  {text : String} {n : Node}

theorem child?_eq_some_iff {child : Json} :
    child? side node = some child ↔ node.member? side.name = some child ∧ child ≠ .null := by
  rw [child?, Option.filter_eq_some_iff, ne_eq, ← Json.isNull_eq_true_iff]
  simp

theorem child?_eq_none_iff :
    child? side node = none ↔
      node.member? side.name = none ∨ node.member? side.name = some .null := by
  rw [child?, Option.filter_eq_none_iff]
  cases h : node.member? side.name <;> simp [Json.isNull_eq_true_iff]

theorem ofOperator_eq_ok_iff : ofOperator text node = .ok n ↔
    ∃ connective left right, n = .join connective left right ∧ text = connective.keyword ∧
      child? .left node = some left ∧ child? .right node = some right := by
  simp only [← Connective.ofKeyword?_eq_some_iff]
  unfold ofOperator
  cases Connective.ofKeyword? text with
  | none => simp
  | some connective =>
    cases child? .left node with
    | none => simp
    | some left =>
      cases child? .right node with
      | none => simp
      | some right =>
        constructor
        · intro h
          exact ⟨connective, left, right, (Except.ok.inj h).symm, rfl, rfl, rfl⟩
        · rintro ⟨_, _, _, rfl, ⟨⟩, ⟨⟩, ⟨⟩⟩
          rfl

theorem ofOperand_eq_ok_iff : ofOperand text node = .ok n ↔
    ∃ c, n = .condition c ∧ Condition.read text = .ok c ∧
      child? .left node = none ∧ child? .right node = none := by
  unfold ofOperand
  cases child? .left node with
  | some left => simp
  | none =>
    cases child? .right node with
    | some right => simp
    | none => cases Condition.read text <;> simp [eq_comm]

/-- **A value is a node** if it is an object with a type and a text, and by its type an inner node
or a leaf. -/
theorem ofJson_eq_ok_iff : ofJson node = .ok n ↔
    ∃ text, node.member? "value" = some (.string text) ∧
      (node.member? "type" = some (.string "operator") ∧ ofOperator text node = .ok n ∨
        node.member? "type" = some (.string "operand") ∧ ofOperand text node = .ok n) := by
  cases node with
  | object members =>
    simp only [← Json.bind_asString?_eq_some_iff, ofJson]
    cases htype : ((Json.object members).member? "type").bind Json.asString? with
    | none => simp
    | some type =>
      cases ((Json.object members).member? "value").bind Json.asString? with
      | none => simp
      | some text =>
        by_cases hoperator : type = "operator"
        · simp [hoperator]
        · by_cases hoperand : type = "operand" <;> simp [hoperator, hoperand]
  | null | bool _ | number _ | string _ | array _ => simp [ofJson, Json.member?]

theorem ofJson_eq_join_iff : ofJson node = .ok (.join connective left right) ↔
    node.member? "type" = some (.string "operator") ∧
      node.member? "value" = some (.string connective.keyword) ∧
      child? .left node = some left ∧ child? .right node = some right := by
  rw [ofJson_eq_ok_iff]
  simp only [ofOperator_eq_ok_iff, ofOperand_eq_ok_iff]
  constructor
  · rintro ⟨text, hvalue, ⟨htype, _, _, _, heq, rfl, hleft, hright⟩ | ⟨-, _, heq, -⟩⟩
    · obtain ⟨rfl, rfl, rfl⟩ := Node.join.inj heq
      exact ⟨htype, hvalue, hleft, hright⟩
    · exact nomatch heq
  · rintro ⟨htype, hvalue, hleft, hright⟩
    exact ⟨_, hvalue, .inl ⟨htype, _, _, _, rfl, rfl, hleft, hright⟩⟩

theorem ofJson_eq_condition_iff : ofJson node = .ok (.condition c) ↔
    node.member? "type" = some (.string "operand") ∧
      (∃ text, node.member? "value" = some (.string text) ∧ Condition.read text = .ok c) ∧
      child? .left node = none ∧ child? .right node = none := by
  rw [ofJson_eq_ok_iff]
  simp only [ofOperator_eq_ok_iff, ofOperand_eq_ok_iff]
  constructor
  · rintro ⟨text, hvalue, ⟨-, _, _, _, heq, -⟩ | ⟨htype, _, heq, hread, hleft, hright⟩⟩
    · exact nomatch heq
    · obtain rfl := Node.condition.inj heq
      exact ⟨htype, ⟨text, hvalue, hread⟩, hleft, hright⟩
  · rintro ⟨htype, ⟨text, hvalue, hread⟩, hleft, hright⟩
    exact ⟨text, hvalue, .inr ⟨htype, _, rfl, hread, hleft, hright⟩⟩

end Node

/-! ## Denotation -/

/-- `Denotes value tree`: the value is the encoded form of the rule. -/
inductive Denotes : Json → RuleTree → Prop
  | operator {members : List (String × Json)} {connective : Connective} {left right : Json}
    {leftTree rightTree : RuleTree}
    (htype : Json.lookup "type" members = some (.string "operator"))
    (hvalue : Json.lookup "value" members = some (.string connective.keyword))
    (hleft : Json.lookup "left" members = some left) (hleftNull : left ≠ .null)
    (hright : Json.lookup "right" members = some right) (hrightNull : right ≠ .null)
    (hleftTree : Denotes left leftTree) (hrightTree : Denotes right rightTree) :
    Denotes (.object members) (.join connective leftTree rightTree)
  | operand {members : List (String × Json)} {text : String} {tokens : List Token} {c : Condition}
    (htype : Json.lookup "type" members = some (.string "operand"))
    (hleft : Json.lookup "left" members = none ∨ Json.lookup "left" members = some .null)
    (hright : Json.lookup "right" members = none ∨ Json.lookup "right" members = some .null)
    (hvalue : Json.lookup "value" members = some (.string text))
    (hscan : Token.scan text = .ok tokens)
    (hkinds : tokens.map Token.kind =
      [.word c.field, .comparator c.comparator, c.literal.kind]) :
    Denotes (.object members) (.condition c)

theorem Denotes.ofJsonAt_eq {value : Json} {tree : RuleTree} (h : Denotes value tree)
    (path : List Side) : ofJsonAt path value = .ok tree := by
  induction h generalizing path with
  | @operator members connective left right _ _ htype hvalue hleft hleftNull hright hrightNull _ _
      ihl ihr =>
    have hnode : Node.ofJson (.object members) = .ok (.join connective left right) :=
      Node.ofJson_eq_join_iff.2 ⟨htype, hvalue, Node.child?_eq_some_iff.2 ⟨hleft, hleftNull⟩,
        Node.child?_eq_some_iff.2 ⟨hright, hrightNull⟩⟩
    rw [ofJsonAt_of_join hnode, ihl, ihr]
    rfl
  | @operand members text tokens c htype hleft hright hvalue hscan hkinds =>
    have hread := Condition.read_eq_ok_iff.2 ⟨tokens, hscan, hkinds⟩
    have hnode : Node.ofJson (.object members) = .ok (.condition c) :=
      Node.ofJson_eq_condition_iff.2 ⟨htype, ⟨text, hvalue, hread⟩,
        Node.child?_eq_none_iff.2 hleft, Node.child?_eq_none_iff.2 hright⟩
    exact ofJsonAt_of_condition hnode

theorem denotes_of_ofJsonAt {path : List Side} {value : Json} {tree : RuleTree}
    (h : ofJsonAt path value = .ok tree) : Denotes value tree := by
  fun_induction ofJsonAt path value generalizing tree with
  | case1 => cases h
  | case2 path value c hnode =>
    obtain rfl := Except.ok.inj h
    obtain ⟨htype, ⟨text, hvalue, hread⟩, hleft, hright⟩ := Node.ofJson_eq_condition_iff.1 hnode
    obtain ⟨tokens, hscan, hkinds⟩ := Condition.read_eq_ok_iff.1 hread
    cases value with
    | object members =>
      exact .operand htype (Node.child?_eq_none_iff.1 hleft) (Node.child?_eq_none_iff.1 hright)
        hvalue hscan hkinds
    | null | bool _ | number _ | string _ | array _ => exact nomatch htype
  | case3 path value connective left right hnode ihl ihr =>
    obtain ⟨leftTree, hl, h⟩ := Except.bind_eq_ok_iff.1 h
    obtain ⟨rightTree, hr, h⟩ := Except.bind_eq_ok_iff.1 h
    obtain rfl := Except.ok.inj h
    obtain ⟨htype, hvalue, hleft, hright⟩ := Node.ofJson_eq_join_iff.1 hnode
    obtain ⟨hleft, hleftNull⟩ := Node.child?_eq_some_iff.1 hleft
    obtain ⟨hright, hrightNull⟩ := Node.child?_eq_some_iff.1 hright
    cases value with
    | object members =>
      exact .operator htype hvalue hleft hleftNull hright hrightNull (ihl hl) (ihr hr)
    | null | bool _ | number _ | string _ | array _ => exact nomatch htype

/-- What is decoded can be written down: its words and strings are those of scanned texts. -/
theorem Denotes.isWritable {value : Json} {tree : RuleTree} (h : Denotes value tree) :
    tree.isWritable = true := by
  induction h with
  | operator _ _ _ _ _ _ _ _ ihl ihr => exact isWritable_join.2 ⟨ihl, ihr⟩
  | operand _ _ _ _ hscan hkinds => exact isWritable_condition_of_scan hscan hkinds

/-! ## Members that are not looked at -/

/-- `Padded value padded`: an object within the one value, or the value itself, has one member more
in the other, under a name that no node is read by. -/
inductive Padded : Json → Json → Prop
  | member {name : String} (before : List (String × Json)) {after : List (String × Json)}
    {value : Json} (hname : name ∉ ["type", "value", "left", "right"]) :
    Padded (.object (before ++ after)) (.object (before ++ (name, value) :: after))
  | within {name : String} (before : List (String × Json)) {after : List (String × Json)}
    {value padded : Json} (h : Padded value padded) :
    Padded (.object (before ++ (name, value) :: after))
      (.object (before ++ (name, padded) :: after))

/-- Two values are decoded alike, at any path. -/
def DecodedAlike (value other : Json) : Prop :=
  ∀ path, ofJsonAt path value = ofJsonAt path other

theorem ofJsonAt_eq (path : List Side) (node : Json) :
    ofJsonAt path node =
      match Node.ofJson node with
      | .error fault => .error (.malformedNode path fault)
      | .ok (.condition c) => .ok (.condition c)
      | .ok (.join connective left right) => do
        let leftTree ← ofJsonAt (path ++ [.left]) left
        let rightTree ← ofJsonAt (path ++ [.right]) right
        return .join connective leftTree rightTree := by
  rw [ofJsonAt]
  split <;> simp_all

/-- Objects with the same texts for type and value and with children that are decoded alike are
decoded alike. -/
theorem decodedAlike_object {members members' : List (String × Json)}
    (htype : (Json.lookup "type" members).bind Json.asString? =
      (Json.lookup "type" members').bind Json.asString?)
    (hvalue : (Json.lookup "value" members).bind Json.asString? =
      (Json.lookup "value" members').bind Json.asString?)
    (hchild : ∀ side, Option.Rel DecodedAlike (Node.child? side (.object members))
      (Node.child? side (.object members'))) :
    DecodedAlike (.object members) (.object members') := by
  intro path
  have hleft := hchild .left
  have hright := hchild .right
  rw [ofJsonAt_eq, ofJsonAt_eq]
  simp only [Node.ofJson, Json.member?, Node.ofOperator, Node.ofOperand, htype, hvalue]
  generalize Node.child? .left (.object members) = left at *
  generalize Node.child? .left (.object members') = left' at *
  generalize Node.child? .right (.object members) = right at *
  generalize Node.child? .right (.object members') = right' at *
  cases hleft with
  | none =>
    cases hright with
    | none => rfl
    | some hright => rfl
  | some hleft =>
    cases hright with
    | none => rfl
    | some hright =>
      -- the children matter to an inner node with a known connective only
      cases (Json.lookup "type" members').bind Json.asString? with
      | none => rfl
      | some type =>
        cases (Json.lookup "value" members').bind Json.asString? with
        | none => rfl
        | some text =>
          by_cases hoperator : type = "operator"
          · simp only [hoperator, if_true]
            cases Connective.ofKeyword? text with
            | none => rfl
            | some connective => simp only [hleft _, hright _]
          · simp only [hoperator, if_false]
            rfl

theorem optionRel_decodedAlike_refl (value? : Option Json) :
    Option.Rel DecodedAlike value? value? := by
  cases value? with
  | none => exact .none
  | some value => exact .some fun _ => rfl

/-- **Other members are not looked at**, at any node. -/
theorem Padded.decodedAlike {value padded : Json} (h : Padded value padded) :
    DecodedAlike value padded := by
  induction h with
  | @member name before after value hname =>
    have hsame : ∀ known ∈ ["type", "value", "left", "right"],
        Json.lookup known (before ++ after) =
          Json.lookup known (before ++ (name, value) :: after) :=
      fun known hknown => (Json.lookup_of_ne (ne_of_mem_of_not_mem hknown hname).symm value).symm
    refine decodedAlike_object (by rw [hsame _ (by simp)]) (by rw [hsame _ (by simp)])
      fun side => ?_
    have hside : side.name ∈ ["type", "value", "left", "right"] := by
      cases side <;> simp [Side.name]
    rw [Node.child?, Node.child?, Json.member?, Json.member?, hsame _ hside]
    exact optionRel_decodedAlike_refl _
  | @within name before after value padded hpadded ih =>
    have htext : ∀ known,
        (Json.lookup known (before ++ (name, value) :: after)).bind Json.asString? =
        (Json.lookup known (before ++ (name, padded) :: after)).bind Json.asString? := by
      intro known
      obtain heq | ⟨hvalue, hpadded'⟩ := Json.lookup_replace known name value padded
      · rw [heq]
      · rw [hvalue, hpadded']
        cases hpadded <;> rfl
    refine decodedAlike_object (htext _) (htext _) fun side => ?_
    rw [Node.child?, Node.child?, Json.member?, Json.member?]
    obtain heq | ⟨hvalue, hpadded'⟩ := Json.lookup_replace side.name name value padded
    · rw [heq]
      exact optionRel_decodedAlike_refl _
    · rw [hvalue, hpadded']
      cases hpadded <;> exact .some ih

/-! ## Decoding accepts the format -/

/-- **Decoding accepts the values that encode a rule**, and no others. Members under other names do
not matter at any node, and a rule that has been decoded is decoded again from its own encoding. -/
theorem ofJson_eq_ok_iff_denotes (value : Json) :
    (∀ tree, ofJson value = .ok tree ↔ Denotes value tree) ∧
    (∀ padded, Padded value padded → ofJson padded = ofJson value) ∧
    ∀ tree, ofJson value = .ok tree → ofJson tree.toJson = .ok tree :=
  ⟨fun _ => ⟨denotes_of_ofJsonAt, fun h => h.ofJsonAt_eq []⟩, fun _ h => (h.decodedAlike []).symm,
    fun _ h => ofJsonAt_toJson (denotes_of_ofJsonAt h).isWritable []⟩

/-- A leaf on the field `age`, written with other blanks than `display` has. -/
def looseLeaf : Json :=
  .object [("value", .string "\tage >\u00a0 18\n"), ("type", .string "operand"), ("right", .null)]

/-- An inner node whose `type` stands twice, of which the last counts. -/
def looseNode (right : Json) : Json :=
  .object [("type", .string "leaf"), ("right", right), ("value", .string "OR"),
    ("left", looseLeaf), ("type", .string "operator")]

theorem scan_looseLeaf : Token.scan "\tage >\u00a0 18\n" =
    .ok [⟨.word "age", 1⟩, ⟨.comparator .greater, 5⟩, ⟨.word "18", 9⟩] := by decide +kernel

theorem scan_quotedName : Token.scan "name = 'Bo'" =
    .ok [⟨.word "name", 0⟩, ⟨.comparator .equal, 5⟩, ⟨.quoted "Bo", 7⟩] := by decide +kernel

theorem denotes_looseNode :
    Denotes (looseNode (.object [("type", .string "operand"), ("value", .string "name = 'Bo'")]))
      (.join .or (.condition ⟨"age", .greater, .bare "18"⟩)
        (.condition ⟨"name", .equal, .quoted "Bo"⟩)) :=
  .operator rfl rfl rfl (by simp [looseLeaf]) rfl (by simp)
    (.operand rfl (.inl rfl) (.inr rfl) rfl scan_looseLeaf rfl)
    (.operand rfl (.inl rfl) (.inl rfl) rfl scan_quotedName rfl)

/-- The value is decoded, with a note at its right child as well, and the rule is decoded again from
its encoding, which is another value. A connective in small letters is refused. -/
theorem ofJson_looseNode :
    let right : List (String × Json) :=
      [("type", .string "operand"), ("value", .string "name = 'Bo'")]
    let tree : RuleTree := .join .or (.condition ⟨"age", .greater, .bare "18"⟩)
      (.condition ⟨"name", .equal, .quoted "Bo"⟩)
    ofJson (looseNode (.object right)) = .ok tree ∧
      ofJson (looseNode (.object (("note", .null) :: right))) = .ok tree ∧
      ofJson tree.toJson = .ok tree ∧
      ¬∃ tree, ofJson (.object [("type", .string "operator"), ("value", .string "or"),
        ("left", looseLeaf), ("right", looseLeaf)]) = .ok tree := by
  intro right tree
  obtain ⟨hiff, hpadded, hagain⟩ := ofJson_eq_ok_iff_denotes (looseNode (.object right))
  have hvalue : ofJson (looseNode (.object right)) = .ok tree := (hiff tree).2 denotes_looseNode
  have hnote : Padded (looseNode (.object right))
      (looseNode (.object (("note", .null) :: right))) :=
    .within [("type", .string "leaf")] (.member [] (by simp))
  refine ⟨hvalue, (hpadded _ hnote).trans hvalue, hagain tree hvalue, ?_⟩
  rintro ⟨other, hother⟩
  cases ((ofJson_eq_ok_iff_denotes _).1 other).1 hother with
  | @operator _ connective _ _ _ _ _ hvalue =>
    cases connective <;> simp [Json.lookup, Connective.keyword] at hvalue
  | operand htype => simp [Json.lookup] at htype

end RuleTree

end Eligibility
