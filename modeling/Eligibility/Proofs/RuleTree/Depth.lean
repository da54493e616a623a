import Eligibility.RuleTree.Basic
/-!
# The depth of a tree is its height

The work list of `deepestLevel` may hold any trees at any levels. Its first tree is used up before
anything else is looked at, and raises the deepest level to that of its own deepest leaf
(`deepestLevel_cons`).

`Walk` is the same walk turn by turn, where each turn is told which child to push first;
`deepestLevel` always pushes the left one first. Whatever it is told, a turn leaves the answer of
`deepestLevel` as it is and takes one node off the work list (`Walk.of_turn`). So every walk over a
tree ends, after as many turns as the tree has nodes, and has come to the height then
(`depth_of_any_walk`).
-/

namespace Eligibility.RuleTree

/-- The first pending tree is walked as a whole. Its root is at level `above + 1`. -/
theorem deepestLevel_cons (tree : RuleTree) (deepest above : Nat)
    (pending : List (RuleTree × Nat)) :
    deepestLevel deepest ((tree, above + 1) :: pending) =
      deepestLevel (max deepest (above + tree.height)) pending := by
  induction tree generalizing deepest above pending with
  | condition c => rw [deepestLevel, height]
  | join connective left right ihl ihr =>
    have hmax : max (max (max deepest (above + 1)) (above + 1 + right.height))
        (above + 1 + left.height) = max deepest (above + (join connective left right).height) := by
      rw [height]
      omega
    rw [deepestLevel, ihr, ihl, hmax]

theorem depth_eq_height (tree : RuleTree) : tree.depth = tree.height := by
  have hwalk := deepestLevel_cons tree 0 0 []
  rw [Nat.zero_add, deepestLevel, Nat.zero_add, Nat.zero_max] at hwalk
  exact hwalk

/-! ## Turn by turn -/

theorem size_pos (tree : RuleTree) : 0 < tree.size := by
  cases tree with
  | condition c => exact Nat.one_pos
  | join connective left right => exact Nat.succ_pos _

theorem pendingSize_eq_zero_iff {pending : List (RuleTree × Nat)} :
    pendingSize pending = 0 ↔ pending = [] := by
  cases pending with
  | nil => simp [pendingSize]
  | cons entry pending =>
    have hpos := size_pos entry.1
    simp only [pendingSize, reduceCtorEq, iff_false]
    omega

/-- A walk in progress: the deepest level that it has come to, and the work list of the trees that
are pending, each with the level of its root. -/
structure Walk where
  deepest : Nat
  pending : List (RuleTree × Nat)

namespace Walk

/-- The walk over a tree before its first turn. -/
def start (tree : RuleTree) : Walk := ⟨0, [(tree, 1)]⟩

/-- A work list with two more trees at one level, where the child of one side is pushed before the
other one, which is on top then. -/
def pushChildren (first : Side) (left right : RuleTree) (level : Nat)
    (pending : List (RuleTree × Nat)) : List (RuleTree × Nat) :=
  match first with
  | .left => (right, level) :: (left, level) :: pending
  | .right => (left, level) :: (right, level) :: pending

/-- One turn: the tree on top is taken off, its level counts, and its children are pushed, that of
one side before the other. A walk without pending trees has no turn left. -/
def turn (walk : Walk) (first : Side) : Option Walk :=
  match walk.pending with
  | [] => none
  | (condition _, level) :: pending => some ⟨max walk.deepest level, pending⟩
  | (join _ left right, level) :: pending =>
    some ⟨max walk.deepest level, pushChildren first left right (level + 1) pending⟩

/-- The walk after some turns, each with the side that it pushes first. -/
def run (walk : Walk) (order : List Side) : Option Walk :=
  order.foldlM turn walk

variable {walk next : Walk} {first : Side} {order : List Side}

/-- Which child is pushed first makes no difference to the deepest level. -/
theorem deepestLevel_pushChildren (deepest : Nat) (first : Side) (left right : RuleTree)
    (level : Nat) (pending : List (RuleTree × Nat)) :
    deepestLevel deepest (pushChildren first left right (level + 1) pending) =
      deepestLevel (max (max deepest (level + left.height)) (level + right.height)) pending := by
  cases first with
  | left => rw [pushChildren, deepestLevel_cons, deepestLevel_cons, Nat.max_right_comm]
  | right => rw [pushChildren, deepestLevel_cons, deepestLevel_cons]

theorem pendingSize_pushChildren (first : Side) (left right : RuleTree) (level : Nat)
    (pending : List (RuleTree × Nat)) :
    pendingSize (pushChildren first left right level pending) =
      left.size + right.size + pendingSize pending := by
  cases first <;> simp only [pushChildren, pendingSize] <;> omega

/-- **A turn keeps the answer**, whichever child it pushes first, and takes off one node. -/
theorem of_turn (h : walk.turn first = some next) :
    deepestLevel next.deepest next.pending = deepestLevel walk.deepest walk.pending ∧
      pendingSize walk.pending = pendingSize next.pending + 1 := by
  obtain ⟨deepest, _ | ⟨⟨tree, level⟩, pending⟩⟩ := walk
  · cases h
  · cases tree with
    | condition c =>
      obtain rfl := Option.some.inj h
      refine ⟨?_, Nat.add_comm ..⟩
      rw [deepestLevel]
    | join connective left right =>
      obtain rfl := Option.some.inj h
      constructor
      · rw [deepestLevel, deepestLevel_pushChildren]
        exact (deepestLevel_pushChildren _ .left left right level pending).symm
      · rw [pendingSize_pushChildren, pendingSize, size]
        omega

/-- There is a turn left as long as a node is pending. -/
theorem exists_turn (h : 0 < pendingSize walk.pending) (first : Side) :
    ∃ next, walk.turn first = some next := by
  obtain ⟨deepest, _ | ⟨⟨tree, level⟩, pending⟩⟩ := walk
  · exact absurd h (Nat.lt_irrefl 0)
  · cases tree with
    | condition c => exact ⟨_, rfl⟩
    | join connective left right => exact ⟨_, rfl⟩

/-- A run keeps the answer, and takes off as many nodes as it has turns. -/
theorem of_run (h : walk.run order = some next) :
    deepestLevel next.deepest next.pending = deepestLevel walk.deepest walk.pending ∧
      pendingSize walk.pending = pendingSize next.pending + order.length := by
  induction order generalizing walk with
  | nil =>
    obtain rfl := Option.some.inj h
    exact ⟨rfl, rfl⟩
  | cons first order ih =>
    obtain ⟨middle, hturn, hrun⟩ := Option.bind_eq_some_iff.1 (List.foldlM_cons.symm.trans h)
    obtain ⟨hanswer, hsize⟩ := of_turn hturn
    obtain ⟨hanswer', hsize'⟩ := ih hrun
    refine ⟨hanswer'.trans hanswer, ?_⟩
    rw [hsize, hsize', List.length_cons, Nat.add_assoc]

/-- A walk does not stop before its nodes are used up. -/
theorem exists_run (h : order.length ≤ pendingSize walk.pending) :
    ∃ next, walk.run order = some next := by
  induction order generalizing walk with
  | nil => exact ⟨walk, rfl⟩
  | cons first order ih =>
    rw [List.length_cons] at h
    obtain ⟨middle, hturn⟩ := exists_turn (Nat.zero_lt_of_lt h) first
    obtain ⟨-, hsize⟩ := of_turn hturn
    have hrest : order.length ≤ pendingSize middle.pending := by omega
    obtain ⟨next, hrun⟩ := ih hrest
    exact ⟨next, List.foldlM_cons.trans (Option.bind_eq_some_iff.2 ⟨middle, hturn, hrun⟩)⟩

/-- **A walk comes to its end** after as many turns as nodes were pending, whatever the order, and
not before. It has come to the deepest level then. -/
theorem run_eq_done_iff {deepest : Nat} : walk.run order = some ⟨deepest, []⟩ ↔
    order.length = pendingSize walk.pending ∧
      deepest = deepestLevel walk.deepest walk.pending := by
  constructor
  · intro h
    obtain ⟨hanswer, hsize⟩ := of_run h
    rw [deepestLevel] at hanswer
    rw [pendingSize, Nat.zero_add] at hsize
    exact ⟨hsize.symm, hanswer⟩
  · rintro ⟨hlength, rfl⟩
    obtain ⟨⟨deepest, pending⟩, hrun⟩ := exists_run (Nat.le_of_eq hlength)
    obtain ⟨hanswer, hsize⟩ := of_run hrun
    rw [hlength] at hsize
    obtain rfl := pendingSize_eq_zero_iff.1 (Nat.right_eq_add.1 hsize)
    rw [deepestLevel] at hanswer
    rw [hrun, ← hanswer]

end Walk

/-- **The depth of a tree is its height**, and every walk over the tree finds it: whichever child
each turn pushes first, nothing is pending after as many turns as there are nodes, and not before,
and the deepest level is the height then. -/
theorem depth_of_any_walk (tree : RuleTree) :
    tree.depth = tree.height ∧
      ∀ (order : List Side) (deepest : Nat),
        (Walk.start tree).run order = some ⟨deepest, []⟩ ↔
          order.length = tree.size ∧ deepest = tree.height := by
  refine ⟨depth_eq_height tree, fun order deepest => ?_⟩
  rw [Walk.run_eq_done_iff, ← depth_eq_height]
  exact Iff.rfl

end Eligibility.RuleTree
