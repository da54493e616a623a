import Eligibility.Proofs.RuleTree.Depth
import Eligibility.Proofs.RuleTree.Fields
import Eligibility.RuleTree.Combination
import Mathlib.Data.List.Basic
/-!
# Combined rules

A combined rule has the conditions of its parts, one part after the other (`conditions_of_combine`),
and the depth that was told before it was built (`combinedDepth_of_combine`).
-/

namespace Eligibility.RuleTree

variable {connective : Connective} {trees : List RuleTree} {tree : RuleTree}

theorem depth_join (connective : Connective) (left right : RuleTree) :
    (join connective left right).depth = max left.depth right.depth + 1 := by
  simp only [depth_eq_height, height]

theorem conditions_foldl_join (connective : Connective) (first : RuleTree)
    (rest : List RuleTree) : (rest.foldl (join connective) first).conditions =
      first.conditions ++ rest.flatMap conditions := by
  induction rest generalizing first with
  | nil => simp
  | cons next rest ih =>
    rw [List.foldl_cons, ih, conditions, List.flatMap_cons, List.append_assoc]

theorem depth_foldl_join (connective : Connective) (first : RuleTree) (rest : List RuleTree) :
    (rest.foldl (join connective) first).depth =
      rest.foldl (fun level tree => max level tree.depth + 1) first.depth := by
  induction rest generalizing first with
  | nil => rfl
  | cons next rest ih => rw [List.foldl_cons, ih, depth_join, List.foldl_cons]

/-- Any rules but none at all can be combined. -/
theorem exists_combine (connective : Connective) (hne : trees ≠ []) :
    ∃ tree, combine connective trees = .ok tree := by
  obtain ⟨first, rest, rfl⟩ := List.exists_cons_of_ne_nil hne
  exact ⟨_, rfl⟩

/-- **Nothing is lost and nothing is added** when rules are combined. -/
theorem conditions_of_combine (h : combine connective trees = .ok tree) :
    tree.conditions = trees.flatMap conditions := by
  cases trees with
  | nil => cases h
  | cons first rest =>
    obtain rfl := Except.ok.inj h
    exact conditions_foldl_join connective first rest

/-- A combined rule reads the fields that its parts read. -/
theorem mem_fields_of_combine (h : combine connective trees = .ok tree) {field : String} :
    field ∈ tree.fields ↔ ∃ part ∈ trees, field ∈ part.fields := by
  simp only [mem_fields, conditions_of_combine h, List.mem_flatMap]
  constructor
  · rintro ⟨c, ⟨part, hpart, hc⟩, hfield⟩
    exact ⟨part, hpart, c, hc, hfield⟩
  · rintro ⟨part, hpart, c, hc, hfield⟩
    exact ⟨c, ⟨part, hpart, hc⟩, hfield⟩

/-- **The depth of a combined rule** is the one that was told before. -/
theorem combinedDepth_of_combine (h : combine connective trees = .ok tree) :
    combinedDepth trees = some tree.depth := by
  cases trees with
  | nil => cases h
  | cons first rest =>
    obtain rfl := Except.ok.inj h
    exact congrArg some (depth_foldl_join connective first rest).symm

end Eligibility.RuleTree
