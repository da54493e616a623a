import Eligibility.RuleTree.Basic
import Mathlib.Data.List.Nodup
/-!
# The nodes of a tree

A node is reached from the root by a path, and the rule that starts there is `RuleTree.subtree?`.
`RuleTree.postOrder` lists all nodes with their paths, children before their parent, and
`RuleTree.leaves` the conditions, from left to right. Each node is listed exactly once
(`RuleTree.mem_postOrder`, `RuleTree.nodup_postOrder`).
-/

namespace Eligibility

/-- The written form of a path is its steps with dots between them. -/
theorem pathText_eq_intercalate (path : List Side) :
    pathText path = ".".intercalate ("root" :: path.map Side.name) := by
  have hfold : ∀ text : String, path.foldl (fun text side => text ++ "." ++ side.name) text =
      ".".intercalate (text :: path.map Side.name) := by
    induction path with
    | nil => exact fun text => String.intercalate_singleton.symm
    | cons side path ih =>
      intro text
      rw [List.foldl_cons, ih, List.map_cons, String.intercalate_cons_append,
        String.intercalate_cons_cons]
  exact hfold "root"

namespace RuleTree

variable {α : Type} {tree node : RuleTree} {path : List Side} {side : Side}

/-- The rule that starts at the node at the end of a path. -/
def subtree? : RuleTree → List Side → Option RuleTree
  | tree, [] => some tree
  | join _ left _, .left :: path => left.subtree? path
  | join _ _ right, .right :: path => right.subtree? path
  | condition _, _ :: _ => none

/-! ## Listings -/

/-- What is found at paths in the child of one side, at the paths from its parent. -/
def onSide (side : Side) (found : List (List Side × α)) : List (List Side × α) :=
  found.map (Prod.map (side :: ·) id)

/-- The nodes of a rule with the paths to them: those on the left, those on the right, the root. -/
def postOrder : RuleTree → List (List Side × RuleTree)
  | condition c => [([], condition c)]
  | join connective left right =>
    onSide .left left.postOrder ++ onSide .right right.postOrder ++
      [([], join connective left right)]

/-- The conditions of a rule with the paths to them, from left to right. -/
def leaves : RuleTree → List (List Side × Condition)
  | condition c => [([], c)]
  | join _ left right => onSide .left left.leaves ++ onSide .right right.leaves

theorem map_onSide {β : Type} (side : Side) (found : List (List Side × α))
    (f : List Side × α → β) :
    (onSide side found).map f = found.map fun entry => f (side :: entry.1, entry.2) := by
  simp [onSide]

theorem mem_onSide {found : List (List Side × α)} {a : α} :
    (path, a) ∈ onSide side found ↔ ∃ rest, path = side :: rest ∧ (rest, a) ∈ found := by
  simp [onSide, eq_comm, and_comm]

/-- **Every node is listed**, and nothing else. -/
theorem mem_postOrder : (path, node) ∈ tree.postOrder ↔ tree.subtree? path = some node := by
  induction tree generalizing path with
  | condition c => cases path <;> simp [postOrder, subtree?, eq_comm]
  | join connective left right ihl ihr =>
    rw [postOrder, List.mem_append, List.mem_append, mem_onSide, mem_onSide]
    cases path with
    | nil => simp [subtree?, eq_comm]
    | cons side path => cases side <;> simp [subtree?, ihl, ihr]

theorem mem_leaves {c : Condition} :
    (path, c) ∈ tree.leaves ↔ tree.subtree? path = some (.condition c) := by
  induction tree generalizing path with
  | condition d => cases path <;> simp [leaves, subtree?, eq_comm]
  | join connective left right ihl ihr =>
    rw [leaves, List.mem_append, mem_onSide, mem_onSide]
    cases path with
    | nil => simp [subtree?]
    | cons side path => cases side <;> simp [subtree?, ihl, ihr]

theorem paths_onSide (side : Side) (found : List (List Side × α)) :
    (onSide side found).map Prod.fst = (found.map Prod.fst).map (side :: ·) := by
  simp [onSide]

/-- **No node is listed twice.** -/
theorem nodup_postOrder (tree : RuleTree) : (tree.postOrder.map Prod.fst).Nodup := by
  induction tree with
  | condition c => exact List.nodup_singleton _
  | join connective left right ihl ihr =>
    rw [postOrder, List.map_append, List.map_append, paths_onSide, paths_onSide]
    have hleft := ihl.map (List.cons_injective (a := Side.left))
    have hright := ihr.map (List.cons_injective (a := Side.right))
    -- the paths of the left child, those of the right one and the empty path start differently
    refine (hleft.append hright ?_).append (List.nodup_singleton _) ?_
    · rw [List.disjoint_left]
      intro path hpath hother
      obtain ⟨rest, -, rfl⟩ := List.mem_map.1 hpath
      simp at hother
    · simp

theorem map_snd_leaves (tree : RuleTree) : tree.leaves.map Prod.snd = tree.conditions := by
  induction tree with
  | condition c => rfl
  | join connective left right ihl ihr =>
    rw [leaves, List.map_append, map_onSide, map_onSide, conditions, ← ihl, ← ihr]

end RuleTree

end Eligibility
