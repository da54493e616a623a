import Eligibility.Proofs.Encoding.Denotation
import Eligibility.Proofs.RuleTree.Nodes
import Mathlib.Data.List.Lex
/-!
# The fault that decoding reports

A value may have any number of faults. `LocallyMalformed` says when a value is no node, whatever its
children are, and `Leads` by which paths the nodes within a value are reached. Decoding fails if and
only if a malformed node is reached, and then it names the first of them, where a node comes before
its children and the left child before the right one (`ofJson_eq_error_iff_first`).
-/

namespace Eligibility.RuleTree

variable {value node left right : Json} {side : Side} {path down : List Side}

/-! ## Malformed nodes -/

/-- A value that is no node, whatever the content of its children is. -/
inductive LocallyMalformed (node : Json) : Prop
  | notObject (h : ∀ members, node ≠ .object members)
  | noType (h : ∀ type, node.member? "type" ≠ some (.string type))
  | noValue (h : ∀ text, node.member? "value" ≠ some (.string text))
  | unknownType {type : String} (htype : node.member? "type" = some (.string type))
    (hoperator : type ≠ "operator") (hoperand : type ≠ "operand")
  | unknownConnective {text : String} (htype : node.member? "type" = some (.string "operator"))
    (hvalue : node.member? "value" = some (.string text)) (hand : text ≠ "AND") (hor : text ≠ "OR")
  | missingChild (side : Side) (htype : node.member? "type" = some (.string "operator"))
    (hchild : node.member? side.name = none ∨ node.member? side.name = some .null)
  | unexpectedChild (side : Side) {child : Json}
    (htype : node.member? "type" = some (.string "operand"))
    (hchild : node.member? side.name = some child) (hnull : child ≠ .null)
  | badCondition {text : String} {cause : ParseError}
    (htype : node.member? "type" = some (.string "operand"))
    (hvalue : node.member? "value" = some (.string text))
    (hread : Condition.read text = .error cause)

theorem Node.exists_object {n : Node} (h : Node.ofJson node = .ok n) :
    ∃ members, node = .object members := by
  cases node with
  | object members => exact ⟨members, rfl⟩
  | null | bool _ | number _ | string _ | array _ => exact nomatch h

theorem not_locallyMalformed_of_join {connective : Connective}
    (h : Node.ofJson node = .ok (.join connective left right)) : ¬LocallyMalformed node := by
  obtain ⟨members, hobject⟩ := Node.exists_object h
  obtain ⟨htype, hvalue, hleft, hright⟩ := Node.ofJson_eq_join_iff.1 h
  intro hbad
  cases hbad with
  | notObject h => exact h _ hobject
  | noType h => exact h _ htype
  | noValue h => exact h _ hvalue
  | unknownType htype' hoperator => simp_all
  | unknownConnective _ hvalue' hand hor => cases connective <;> simp_all [Connective.keyword]
  | missingChild side _ hchild =>
    have hnone := Node.child?_eq_none_iff.2 hchild
    cases side <;> simp_all
  | unexpectedChild _ htype' | badCondition htype' => simp_all

theorem not_locallyMalformed_of_condition {c : Condition}
    (h : Node.ofJson node = .ok (.condition c)) : ¬LocallyMalformed node := by
  obtain ⟨members, hobject⟩ := Node.exists_object h
  obtain ⟨htype, ⟨text, hvalue, hread⟩, hleft, hright⟩ := Node.ofJson_eq_condition_iff.1 h
  intro hbad
  cases hbad with
  | notObject h => exact h _ hobject
  | noType h => exact h _ htype
  | noValue h => exact h _ hvalue
  | unknownType htype' _ hoperand => simp_all
  | unknownConnective htype' | missingChild _ htype' => simp_all
  | unexpectedChild side _ hchild hnull =>
    have hsome := Node.child?_eq_some_iff.2 ⟨hchild, hnull⟩
    cases side <;> simp_all
  | badCondition _ hvalue' hread' => simp_all

/-- A value without such a fault is a node. -/
theorem Node.exists_ofJson_eq_ok (h : ¬LocallyMalformed node) : ∃ n, Node.ofJson node = .ok n := by
  obtain ⟨type, htype⟩ : ∃ type, node.member? "type" = some (.string type) := by
    by_contra hnone
    exact h (.noType (not_exists.1 hnone))
  obtain ⟨text, hvalue⟩ : ∃ text, node.member? "value" = some (.string text) := by
    by_contra hnone
    exact h (.noValue (not_exists.1 hnone))
  by_cases hoperator : type = "operator"
  · subst hoperator
    obtain ⟨connective, hconnective⟩ : ∃ connective : Connective, text = connective.keyword := by
      by_contra hnone
      exact h (.unknownConnective htype hvalue (not_exists.1 hnone .and) (not_exists.1 hnone .or))
    have hchild : ∀ side, ∃ child, child? side node = some child := by
      intro side
      rw [← Option.ne_none_iff_exists']
      exact fun hnone => h (.missingChild side htype (child?_eq_none_iff.1 hnone))
    obtain ⟨left, hleft⟩ := hchild .left
    obtain ⟨right, hright⟩ := hchild .right
    exact ⟨_, ofJson_eq_join_iff.2 ⟨htype, hconnective ▸ hvalue, hleft, hright⟩⟩
  · by_cases hoperand : type = "operand"
    · subst hoperand
      have hchild : ∀ side, child? side node = none := by
        intro side
        rw [Option.eq_none_iff_forall_ne_some]
        intro child hsome
        obtain ⟨hchild, hnull⟩ := child?_eq_some_iff.1 hsome
        exact h (.unexpectedChild side htype hchild hnull)
      cases hread : Condition.read text with
      | error cause => exact absurd (.badCondition htype hvalue hread) h
      | ok c =>
        exact ⟨_, ofJson_eq_condition_iff.2
          ⟨htype, ⟨text, hvalue, hread⟩, hchild .left, hchild .right⟩⟩
    · exact absurd (.unknownType htype hoperator hoperand) h

theorem locallyMalformed_of_error {fault : NodeFault} (h : Node.ofJson node = .error fault) :
    LocallyMalformed node := by
  by_contra hgood
  obtain ⟨n, hn⟩ := Node.exists_ofJson_eq_ok hgood
  exact nomatch h.symm.trans hn

/-! ## Where nodes are -/

/-- `Leads path value node`: the path goes from the value, through inner nodes, to the node. -/
inductive Leads : List Side → Json → Json → Prop
  | here {value : Json} : Leads [] value value
  | down {side : Side} {path : List Side} {value child node : Json}
    (htype : value.member? "type" = some (.string "operator"))
    (hchild : value.member? side.name = some child) (hnull : child ≠ .null)
    (h : Leads path child node) : Leads (side :: path) value node

/-- The order of nodes, by their paths, in which a node comes before its children and all of the
left child before the right one. -/
def Precedes : List Side → List Side → Prop :=
  List.Lex fun side other => side = .left ∧ other = .right

instance : Std.Asymm Precedes :=
  have : Std.Asymm fun side other : Side => side = .left ∧ other = .right :=
    ⟨by rintro _ _ ⟨rfl, rfl⟩ ⟨⟨⟩, -⟩⟩
  List.Lex.asymm _

/-- `FirstMalformed value path node`: the path leads to the node, and the node is malformed and
comes before all others that are. -/
structure FirstMalformed (value : Json) (path : List Side) (node : Json) : Prop where
  leads : Leads path value node
  malformed : LocallyMalformed node
  first : ∀ other below, Leads other value below → LocallyMalformed below →
    path = other ∨ Precedes path other

theorem Leads.ofChild {child : Json} (htype : value.member? "type" = some (.string "operator"))
    (hchild : Node.child? side value = some child) (h : Leads path child node) :
    Leads (side :: path) value node := by
  obtain ⟨hchild, hnull⟩ := Node.child?_eq_some_iff.1 hchild
  exact .down htype hchild hnull h

/-- A path leads to one node at most. -/
theorem Leads.unique {other : Json} (h : Leads path value node) (hother : Leads path value other) :
    node = other := by
  induction h with
  | here => cases hother; rfl
  | down _ hchild _ _ ih =>
    cases hother with
    | down _ hchild' _ hother =>
      obtain rfl := Option.some.inj (hchild.symm.trans hchild')
      exact ih hother

theorem FirstMalformed.here (h : LocallyMalformed value) : FirstMalformed value [] value where
  leads := .here
  malformed := h
  first other below hleads _ := by
    cases hleads with
    | here => exact .inl rfl
    | down => exact .inr .nil

section Join

variable {connective : Connective} (hnode : Node.ofJson value = .ok (.join connective left right))

include hnode

/-- From an inner node without a fault of its own, faults are reached through its children. -/
theorem leads_of_join {below : Json} (h : Leads path value below)
    (hbad : LocallyMalformed below) :
    (∃ rest, path = .left :: rest ∧ Leads rest left below) ∨
      ∃ rest, path = .right :: rest ∧ Leads rest right below := by
  obtain ⟨-, -, hleft, hright⟩ := Node.ofJson_eq_join_iff.1 hnode
  cases h with
  | here => exact absurd hbad (not_locallyMalformed_of_join hnode)
  | @down side rest _ child _ _ hchild hnull h =>
    have hsome := Node.child?_eq_some_iff.2 ⟨hchild, hnull⟩
    cases side with
    | left =>
      obtain rfl := Option.some.inj (hleft.symm.trans hsome)
      exact .inl ⟨rest, rfl, h⟩
    | right =>
      obtain rfl := Option.some.inj (hright.symm.trans hsome)
      exact .inr ⟨rest, rfl, h⟩

theorem FirstMalformed.ofLeft (h : FirstMalformed left path node) :
    FirstMalformed value (.left :: path) node where
  leads :=
    have hjoin := Node.ofJson_eq_join_iff.1 hnode
    .ofChild hjoin.1 hjoin.2.2.1 h.leads
  malformed := h.malformed
  first other below hleads hbad := by
    obtain ⟨rest, rfl, hrest⟩ | ⟨rest, rfl, -⟩ := leads_of_join hnode hleads hbad
    · exact (h.first rest below hrest hbad).imp (congrArg _) .cons
    · exact .inr (.rel ⟨rfl, rfl⟩)

/-- The right child counts when there is no malformed node in the left one. -/
theorem FirstMalformed.ofRight (h : FirstMalformed right path node)
    (hleft : ∀ other below, Leads other left below → ¬LocallyMalformed below) :
    FirstMalformed value (.right :: path) node where
  leads :=
    have hjoin := Node.ofJson_eq_join_iff.1 hnode
    .ofChild hjoin.1 hjoin.2.2.2 h.leads
  malformed := h.malformed
  first other below hleads hbad := by
    obtain ⟨rest, rfl, hrest⟩ | ⟨rest, rfl, hrest⟩ := leads_of_join hnode hleads hbad
    · exact absurd hbad (hleft rest below hrest)
    · exact (h.first rest below hrest hbad).imp (congrArg _) .cons

end Join

/-- There is one first malformed node at most. -/
theorem FirstMalformed.unique {other : List Side} {below : Json}
    (h : FirstMalformed value path node) (hother : FirstMalformed value other below) :
    path = other ∧ node = below := by
  have hpath : path = other := by
    obtain rfl | hbefore := h.first other below hother.leads hother.malformed
    · rfl
    · obtain rfl | hafter := hother.first path node h.leads h.malformed
      · rfl
      · exact absurd hafter (asymm hbefore)
  subst hpath
  exact ⟨rfl, h.leads.unique hother.leads⟩

/-! ## What decoding reports -/

theorem ofJsonAt_of_error {fault : NodeFault} (h : Node.ofJson node = .error fault) :
    ofJsonAt path node = .error (.malformedNode path fault) := by
  rw [ofJsonAt_eq, h]

/-- No malformed node is reached in a value that is decoded. -/
theorem not_locallyMalformed_of_ofJsonAt {tree : RuleTree} (h : ofJsonAt path value = .ok tree) :
    ∀ down node, Leads down value node → ¬LocallyMalformed node := by
  intro down node hleads hbad
  fun_induction ofJsonAt path value generalizing tree down with
  | case1 => cases h
  | case2 path value c hnode =>
    obtain ⟨htype, -⟩ := Node.ofJson_eq_condition_iff.1 hnode
    cases hleads with
    | here => exact not_locallyMalformed_of_condition hnode hbad
    | down hoperator => simp [htype] at hoperator
  | case3 path value connective left right hnode ihl ihr =>
    obtain ⟨leftTree, hl, h⟩ := Except.bind_eq_ok_iff.1 h
    obtain ⟨rightTree, hr, -⟩ := Except.bind_eq_ok_iff.1 h
    obtain ⟨rest, -, hleads⟩ | ⟨rest, -, hleads⟩ := leads_of_join hnode hleads hbad
    · exact ihl hl rest hleads
    · exact ihr hr rest hleads

/-- The error of a value at any path names the first malformed node below. -/
theorem firstMalformed_of_ofJsonAt {error : ValidationError}
    (h : ofJsonAt path value = .error error) :
    ∃ down node fault, error = .malformedNode (path ++ down) fault ∧
      FirstMalformed value down node ∧ Node.ofJson node = .error fault := by
  fun_induction ofJsonAt path value with
  | case1 path value fault hnode =>
    obtain rfl := Except.error.inj h
    exact ⟨[], value, fault, by simp, .here (locallyMalformed_of_error hnode), hnode⟩
  | case2 => cases h
  | case3 path value connective left right hnode ihl ihr =>
    -- the right child is decoded after the left one, in which there is then no malformed node
    obtain hl | ⟨leftTree, hl, h⟩ := Except.bind_eq_error_iff.1 h
    · obtain ⟨down, node, fault, rfl, hfirst, hfault⟩ := ihl hl
      exact ⟨.left :: down, node, fault, by simp, hfirst.ofLeft hnode, hfault⟩
    · obtain hr | ⟨rightTree, hr, h⟩ := Except.bind_eq_error_iff.1 h
      · obtain ⟨down, node, fault, rfl, hfirst, hfault⟩ := ihr hr
        exact ⟨.right :: down, node, fault, by simp,
          hfirst.ofRight hnode (not_locallyMalformed_of_ofJsonAt hl), hfault⟩
      · cases h

/-- **Decoding names the first malformed node**, by its path from the root, with the fault that this
node alone is refused for. -/
theorem ofJson_eq_error_iff_first (value : Json) (error : ValidationError) :
    ofJson value = .error error ↔ ∃ path node fault,
      error = .malformedNode path fault ∧ FirstMalformed value path node ∧
        pathText path = ".".intercalate ("root" :: path.map Side.name) ∧
          ofJson node = .error (.malformedNode [] fault) := by
  constructor
  · intro h
    obtain ⟨path, node, fault, rfl, hfirst, hfault⟩ := firstMalformed_of_ofJsonAt h
    exact ⟨path, node, fault, rfl, hfirst, pathText_eq_intercalate path, ofJsonAt_of_error hfault⟩
  · rintro ⟨path, node, fault, rfl, hfirst, -, hfault⟩
    cases h : ofJson value with
    | ok tree =>
      exact absurd hfirst.malformed (not_locallyMalformed_of_ofJsonAt h path node hfirst.leads)
    | error error =>
      obtain ⟨path', node', fault', rfl, hfirst', hfault'⟩ := firstMalformed_of_ofJsonAt h
      obtain ⟨rfl, rfl⟩ := hfirst.unique hfirst'
      have heq := hfault.symm.trans (ofJsonAt_of_error hfault')
      simp_all

end Eligibility.RuleTree
