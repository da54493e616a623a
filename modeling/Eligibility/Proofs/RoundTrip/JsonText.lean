import Eligibility.Proofs.Json.Reading
import Eligibility.Proofs.RoundTrip.Encoding
import Eligibility.Proofs.RuleTree.Depth
/-!
# Rules are read back from their JSON text up to the limit of nesting

An encoded rule has no numbers, and one open object for every level of the tree (`nesting_toJson`).
So its text is read back as the same value exactly for a tree that is no deeper than the limit, and
that value decodes to the tree. The text of a deeper tree is no JSON to the reader (`read_render`).
-/

namespace Eligibility.RuleTree

theorem numberless_encodeNode {type value : String} {left right : Json}
    (hleft : left.Numberless) (hright : right.Numberless) :
    (encodeNode type value left right).Numberless := by
  refine .object fun member hmember => ?_
  simp only [List.mem_cons, List.not_mem_nil, or_false] at hmember
  rcases hmember with rfl | rfl | rfl | rfl
  · exact hleft
  · exact hright
  · exact .string type
  · exact .string value

theorem numberless_toJson (tree : RuleTree) : tree.toJson.Numberless := by
  induction tree with
  | condition c => exact numberless_encodeNode .null .null
  | join connective left right ihl ihr => exact numberless_encodeNode ihl ihr

theorem nesting_encodeNode (type value : String) (left right : Json) :
    (encodeNode type value left right).nesting = max left.nesting right.nesting + 1 := by
  simp [encodeNode, Json.nesting, Json.nestingOfMembers]

/-- **Every level of a tree is one open object of its JSON form.** -/
theorem nesting_toJson (tree : RuleTree) : tree.toJson.nesting = tree.height := by
  induction tree with
  | condition c => exact nesting_encodeNode ..
  | join connective left right ihl ihr => rw [toJson, nesting_encodeNode, ihl, ihr, height]

/-- The text of a rule is read as its JSON value, if the rule is not too deep. -/
theorem read?_render (tree : RuleTree) :
    Json.read? tree.render = if tree.depth ≤ Json.nestingLimit then some tree.toJson else none := by
  rw [Json.read?, render, Json.readWithin?_render (numberless_toJson tree), nesting_toJson,
    depth_eq_height]

/-- **A rule that can be written down is read back from its JSON text, up to depth 127.** -/
theorem read_render (tree : RuleTree) (h : tree.isWritable = true) :
    read tree.render =
      if tree.depth ≤ 127 then .ok tree else .error (.malformedNode [] .invalidJson) := by
  rw [read, read?_render, Json.nestingLimit]
  by_cases hdepth : tree.depth ≤ 127
  · rw [if_pos hdepth, if_pos hdepth]
    exact ofJsonAt_toJson h []
  · rw [if_neg hdepth, if_neg hdepth]

/-- The rule `awkwardRule` on some more levels. -/
def deepRule : Nat → RuleTree
  | 0 => awkwardRule
  | levels + 1 => .join .or awkwardRule (deepRule levels)

theorem isWritable_deepRule (levels : Nat) : (deepRule levels).isWritable = true := by
  induction levels with
  | zero => exact isWritable_awkwardRule
  | succ levels ih => exact isWritable_join.2 ⟨isWritable_awkwardRule, ih⟩

theorem depth_deepRule (levels : Nat) : (deepRule levels).depth = levels + 3 := by
  rw [depth_eq_height]
  induction levels with
  | zero => rfl
  | succ levels ih =>
    have hawkward : awkwardRule.height = 3 := rfl
    rw [deepRule, height, ih, hawkward]
    omega

/-- A rule of depth 127 is read back and one of depth 128 is not. -/
theorem read_render_deepRule :
    (deepRule 124).isWritable = true ∧ (deepRule 125).isWritable = true ∧
      read (deepRule 124).render = .ok (deepRule 124) ∧
      read (deepRule 125).render = .error (.malformedNode [] .invalidJson) := by
  have hwithin := read_render (deepRule 124) (isWritable_deepRule 124)
  have hbeyond := read_render (deepRule 125) (isWritable_deepRule 125)
  rw [depth_deepRule, if_pos (by decide)] at hwithin
  rw [depth_deepRule, if_neg (by decide)] at hbeyond
  exact ⟨isWritable_deepRule 124, isWritable_deepRule 125, hwithin, hbeyond⟩

end Eligibility.RuleTree
