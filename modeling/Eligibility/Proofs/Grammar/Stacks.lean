import Eligibility.Proofs.Grammar.Levels
import Eligibility.Proofs.Grammar.Reader
/-!
# The stacks of the reader

Each level of parentheses in progress keeps a stack of rules and a stack of connectives that wait.
`Frame.Balanced` says how they fit together: there is a rule for each connective, and one more once
an operand is complete, and each connective binds more tightly than those below it. There are but
two strengths, so no more than two connectives wait at once (`Balanced.length_waiting_le`).

A connective that joins its two sides takes two rules and leaves one, so that the loop of
`Frame.settle` keeps the balance (`Balanced.exists_joinLatest`) and never lacks a rule
(`Balanced.exists_settles`). Hence a connective can always start to wait and a level can always end,
with a single rule (`Balanced.completes`): what `joinLatest` and `finish` answer to stacks that do
not fit is never needed. Every move keeps all levels in balance (`Move.balanced`), whatever the
tokens and whether or not they are a rule in the end (`stacks_balanced`).
-/

namespace Eligibility.RuleTree

open Token (Kind)

/-! ## One level -/

namespace Frame

/-- The stacks of a level fit together, where an operand is due or is complete. The latest
connective comes first. -/
structure Balanced (frame : Frame) (operandDue : Bool) : Prop where
  /-- There is one rule for each waiting connective, and one more if no operand is due. -/
  length_trees : frame.trees.length = frame.waiting.length + if operandDue then 0 else 1
  /-- The strengths increase strictly from the bottom of the stack to its top. -/
  tighter : frame.waiting.Pairwise fun later earlier =>
    earlier.connective.precedence < later.connective.precedence

/-- `Joins frame later`: from one frame on, some of the waiting connectives have joined their sides,
the latest first. -/
inductive Joins : Frame → Frame → Prop
  | refl {frame : Frame} : Joins frame frame
  | join {trees joined : List RuleTree} {waiting : List Pending} {pending : Pending}
    {later : Frame} : joinLatest trees pending = .ok joined → Joins ⟨joined, waiting⟩ later →
      Joins ⟨trees, pending :: waiting⟩ later

/-- Nothing is missing in a level whose operand is complete. -/
structure Completes (frame : Frame) : Prop where
  /-- Wherever the loop of joins has come to, the next connective finds its two sides. -/
  joins : ∀ later pending waiting, frame.Joins later → later.waiting = pending :: waiting →
    ∃ joined, joinLatest later.trees pending = .ok joined
  /-- Any connective can start to wait. -/
  awaits : ∀ pending, ∃ awaiting, frame.await pending = .ok awaiting
  /-- The level can end: its rule is the only one that is left when nothing waits any more. -/
  finishes : ∃ root, frame.Settles 0 ⟨[root], []⟩ ∧ frame.finish = .ok root

variable {frame later : Frame} {operandDue : Bool}

theorem balanced_empty : empty.Balanced true := ⟨rfl, .nil⟩

namespace Balanced

/-- A complete operand is one more rule. -/
theorem push (h : frame.Balanced true) (tree : RuleTree) : (frame.push tree).Balanced false :=
  ⟨congrArg Nat.succ h.length_trees, h.tighter⟩

/-- **At most two connectives wait**, since there are but two strengths. -/
theorem length_waiting_le (h : frame.Balanced operandDue) : frame.waiting.length ≤ 2 := by
  have hbounds : ∀ op : Connective, 1 ≤ op.precedence ∧ op.precedence ≤ 2 := by
    intro op
    cases op <;> decide
  have htighter := h.tighter
  generalize frame.waiting = waiting at htighter ⊢
  rcases waiting with _ | ⟨top, _ | ⟨middle, _ | ⟨bottom, rest⟩⟩⟩
  · simp
  · simp
  · simp
  · have htop := hbounds top.connective
    have hbottom := hbounds bottom.connective
    simp only [List.pairwise_cons, List.forall_mem_cons] at htighter
    omega

/-- **A join finds its two sides**, and leaves the stacks in balance. -/
theorem exists_joinLatest {trees : List RuleTree} {pending : Pending} {waiting : List Pending}
    (h : Balanced ⟨trees, pending :: waiting⟩ false) :
    ∃ joined, joinLatest trees pending = .ok joined ∧ Balanced ⟨joined, waiting⟩ false := by
  have hlength := h.length_trees
  rcases trees with _ | ⟨right, _ | ⟨left, rest⟩⟩
  · simp at hlength
  · simp at hlength
  · exact ⟨_, rfl, by simpa using hlength, h.tighter.of_cons⟩

/-- The loop of joins keeps the balance. -/
theorem of_joins (h : frame.Balanced false) (hjoins : frame.Joins later) :
    later.Balanced false := by
  induction hjoins with
  | refl => exact h
  | join hjoin _ ih =>
    obtain ⟨_, hjoined, hbalanced⟩ := h.exists_joinLatest
    obtain rfl := Except.ok.inj (hjoined.symm.trans hjoin)
    exact ih hbalanced

/-- **The loop of joins never lacks a rule**, and stops at a connective that binds more loosely. -/
theorem exists_settles (h : frame.Balanced false) (strength : Nat) :
    ∃ settled, frame.Settles strength settled ∧ frame.Joins settled ∧
      settled.LooserThan strength := by
  obtain ⟨trees, waiting⟩ := frame
  induction waiting generalizing trees with
  | nil => exact ⟨_, rfl, .refl, by simp [LooserThan]⟩
  | cons pending waiting ih =>
    by_cases hloose : pending.connective.precedence < strength
    · exact ⟨_, if_pos hloose, .refl, by simpa [LooserThan] using hloose⟩
    · obtain ⟨joined, hjoin, hbalanced⟩ := h.exists_joinLatest
      obtain ⟨settled, hset, hjoins, hstop⟩ := ih joined hbalanced
      refine ⟨settled, ?_, .join hjoin hjoins, hstop⟩
      rw [Settles, settle, if_neg hloose, hjoin]
      exact hset

/-- In a balanced frame the latest connective speaks for all. -/
theorem forall_looser {strength : Nat} (h : frame.Balanced operandDue)
    (hloose : frame.LooserThan strength) :
    ∀ pending ∈ frame.waiting, pending.connective.precedence < strength := by
  have htighter := h.tighter
  have hhead := hloose
  rw [LooserThan] at hhead
  cases hwaiting : frame.waiting with
  | nil => simp
  | cons top rest =>
    rw [hwaiting] at htighter hhead
    have htop : top.connective.precedence < strength := hhead top rfl
    refine List.forall_mem_cons.2 ⟨htop, fun pending hmem => ?_⟩
    exact Nat.lt_trans (List.rel_of_pairwise_cons htighter hmem) htop

/-- A connective starts to wait on top of those that bind more loosely. -/
theorem exists_await (h : frame.Balanced false) (pending : Pending) :
    ∃ awaiting, frame.await pending = .ok awaiting ∧ awaiting.Balanced true := by
  obtain ⟨settled, hset, hjoins, hloose⟩ := h.exists_settles pending.connective.precedence
  have hsettled := h.of_joins hjoins
  refine ⟨_, hset.await, by simpa using hsettled.length_trees, ?_⟩
  exact List.pairwise_cons.2 ⟨hsettled.forall_looser hloose, hsettled.tighter⟩

/-- When a level ends, a single rule is left. -/
theorem exists_finish (h : frame.Balanced false) :
    ∃ root, frame.Settles 0 ⟨[root], []⟩ ∧ frame.finish = .ok root := by
  obtain ⟨⟨trees, waiting⟩, hset, hjoins, hloose⟩ := h.exists_settles 0
  have hsettled := h.of_joins hjoins
  obtain rfl : waiting = [] :=
    List.eq_nil_iff_forall_not_mem.2 fun pending hmem =>
      Nat.not_lt_zero _ (hsettled.forall_looser hloose pending hmem)
  obtain ⟨root, rfl⟩ := List.length_eq_one_iff.1 hsettled.length_trees
  exact ⟨root, hset, hset.finish⟩

/-- **Nothing is missing** in a balanced level whose operand is complete. -/
theorem completes (h : frame.Balanced false) : frame.Completes where
  joins later pending waiting hjoins hwaiting := by
    obtain ⟨trees, _⟩ := later
    obtain rfl := hwaiting
    obtain ⟨joined, hjoin, -⟩ := (h.of_joins hjoins).exists_joinLatest
    exact ⟨joined, hjoin⟩
  awaits pending := (h.exists_await pending).imp fun _ => And.left
  finishes := h.exists_finish

end Balanced

end Frame

/-! ## All levels -/

/-- Whether an operand is due. One that has been begun is due until it is complete. -/
def Phase.operandDue : Phase → Bool
  | .operand | .comparator _ | .literal _ _ => true
  | .connective => false

namespace State

/-- The levels in progress, the innermost first, each with whether an operand is due in it. A
suspended level waits for a group, which is an operand. -/
def levels (state : State) : List (Frame × Bool) :=
  (state.frame, state.phase.operandDue) :: state.suspended.map fun outer => (outer.frame, true)

/-- The stacks of every level in progress are in balance. -/
def Balanced (state : State) : Prop :=
  ∀ level ∈ state.levels, level.1.Balanced level.2

theorem balanced_mk {suspended : List Suspended} {frame : Frame} {phase : Phase} :
    Balanced ⟨suspended, frame, phase⟩ ↔ frame.Balanced phase.operandDue ∧
      ∀ outer ∈ suspended, outer.frame.Balanced true := by
  simp [Balanced, levels]

theorem balanced_start : start.Balanced :=
  balanced_mk.2 ⟨Frame.balanced_empty, by simp⟩

/-- **Every move keeps the balance** of every level. -/
theorem Move.balanced {state next : State} {token : Token} (h : Move state token next)
    (hstate : state.Balanced) : next.Balanced := by
  cases h with
  | openParen =>
    obtain ⟨hframe, hsuspended⟩ := balanced_mk.1 hstate
    exact balanced_mk.2 ⟨Frame.balanced_empty, List.forall_mem_cons.2 ⟨hframe, hsuspended⟩⟩
  | word | comparator => exact hstate
  | literal =>
    obtain ⟨hframe, hsuspended⟩ := balanced_mk.1 hstate
    exact balanced_mk.2 ⟨hframe.push _, hsuspended⟩
  | connective hawait =>
    obtain ⟨hframe, hsuspended⟩ := balanced_mk.1 hstate
    obtain ⟨_, hawaiting, hbalanced⟩ := hframe.exists_await _
    obtain rfl := Except.ok.inj (hawaiting.symm.trans hawait)
    exact balanced_mk.2 ⟨hbalanced, hsuspended⟩
  | closeParen =>
    -- the inner level is gone, and the group is the operand that the outer one waited for
    obtain ⟨-, hsuspended⟩ := balanced_mk.1 hstate
    obtain ⟨houter, hsuspended⟩ := List.forall_mem_cons.1 hsuspended
    exact balanced_mk.2 ⟨houter.push _, hsuspended⟩

theorem balanced_of_run {tokens : List Token} {state : State} (h : start.run tokens = .ok state) :
    state.Balanced :=
  @run_induction (fun state _ => state.Balanced) (fun hmove => hmove.balanced) _ _ [] _ h
    balanced_start

end State

/-! ## The place in the tokens -/

/-- **A call takes tokens from the front** and leaves the rest to its caller, however many calls it
makes itself. -/
theorem rest_suffix_of_readLevel {endOffset limit : Nat} {opened : Option Nat} {frame : Frame}
    {phase : Phase} {tokens : List Token} {level : Level tokens}
    (h : readLevel endOffset limit opened frame phase tokens = .ok level) :
    level.rest <:+ tokens := by
  fun_induction readLevel endOffset limit opened frame phase tokens with
  | case1 =>
    obtain ⟨tree, -, hlevel⟩ := Except.bind_eq_ok_iff.1 h
    obtain rfl := Except.ok.inj hlevel
    exact List.suffix_refl []
  | case2 => cases h
  | case3 opened frame token rest hkind limit ihgroup ihlevel =>
    obtain ⟨group, hgroup, h⟩ := Except.bind_eq_ok_iff.1 h
    obtain ⟨outer, houter, hlevel⟩ := Except.bind_eq_ok_iff.1 h
    obtain rfl := Except.ok.inj hlevel
    exact ((ihlevel group houter).trans (ihgroup hgroup)).trans (List.suffix_cons ..)
  | case4 =>
    obtain ⟨tree, -, hlevel⟩ := Except.bind_eq_ok_iff.1 h
    obtain rfl := Except.ok.inj hlevel
    exact List.suffix_cons ..
  | case5 limit opened frame phase token rest hopen hclose ih =>
    obtain ⟨next, -, h⟩ := Except.bind_eq_ok_iff.1 h
    obtain ⟨level, hlevel, heq⟩ := Except.bind_eq_ok_iff.1 h
    obtain rfl := Except.ok.inj heq
    exact (ih next hlevel).trans (List.suffix_cons ..)

/-! ## The invariant -/

/-- **The stacks of the reader fit together**, wherever it has come to in some tokens and whatever
becomes of the rest: each level in progress has one rule for each waiting connective and one more if
no operand is due, and at most two connectives wait, the tighter one on top. So a join never lacks a
side, and a level ends with a single rule. The reader never goes back in the tokens: what a call
leaves is what stands behind all that was taken. -/
theorem stacks_balanced (tokens : List Token) :
    (∀ taken state, taken <+: tokens → State.start.run taken = .ok state →
      (∀ level ∈ state.levels, level.1.Balanced level.2 ∧ level.1.waiting.length ≤ 2) ∧
        (state.phase = .connective → state.frame.Completes)) ∧
    ∀ limit opened frame phase level,
      readLevel (endOffset tokens) limit opened frame phase tokens = .ok level →
        level.rest <:+ tokens := by
  refine ⟨fun taken state _ hrun => ?_, fun _ _ _ _ _ h => rest_suffix_of_readLevel h⟩
  have hbalanced := State.balanced_of_run hrun
  refine ⟨fun level hlevel => ⟨hbalanced level hlevel, (hbalanced level hlevel).length_waiting_le⟩,
    fun hphase => ?_⟩
  obtain ⟨suspended, frame, phase⟩ := state
  obtain rfl : phase = .connective := hphase
  exact (State.balanced_mk.1 hbalanced).1.completes

/-- The tokens of `(a > 1 OR b < 2 AND c = 'x'`. -/
def groupStart : List Token :=
  (Kind.openParen :: mixedRule.kinds).map (Token.mk · 0)

/-- The tokens of `) AND`. -/
def groupEnd : List Token :=
  [⟨.closeParen, 0⟩, ⟨.connective .and, 0⟩]

/-- In a group that is not closed yet, three rules and two connectives are there, and nothing is
missing to join them. The call that reads on closes the group and leaves the last connective. -/
theorem stacks_balanced_groupStart :
    ∃ state level, groupStart <+: groupStart ++ groupEnd ∧
      State.start.run groupStart = .ok state ∧
      state.levels.map (fun level => (level.1.trees.length, level.1.waiting.length, level.2)) =
        [(3, 2, false), (0, 0, true)] ∧
      (∀ level ∈ state.levels, level.1.Balanced level.2) ∧ state.frame.Completes ∧
      readLevel (endOffset groupEnd) 0 (some 0) state.frame state.phase groupEnd = .ok level ∧
      level.tree = mixedRule ∧ level.rest = groupEnd.tail ∧ level.rest <:+ groupEnd := by
  let frame : Frame := ⟨[.condition ⟨"c", .equal, .quoted "x"⟩, .condition ⟨"b", .less, .bare "2"⟩,
    .condition ⟨"a", .greater, .bare "1"⟩], [⟨.and, 0⟩, ⟨.or, 0⟩]⟩
  have hprefix : groupStart <+: groupStart ++ groupEnd := List.prefix_append ..
  have hrun : State.start.run groupStart = .ok ⟨[⟨.empty, 0⟩], frame, .connective⟩ := rfl
  have hcall : readLevel (endOffset groupEnd) 0 (some 0) frame .connective groupEnd =
      .ok ⟨mixedRule, groupEnd.tail, by decide⟩ := by
    rw [readLevel.eq_def]
    rfl
  obtain ⟨hstacks, -⟩ := stacks_balanced (groupStart ++ groupEnd)
  obtain ⟨-, hrest⟩ := stacks_balanced groupEnd
  obtain ⟨hlevels, hcompletes⟩ := hstacks _ _ hprefix hrun
  exact ⟨_, _, hprefix, hrun, rfl, fun level hlevel => (hlevels level hlevel).1, hcompletes rfl,
    hcall, rfl, rfl, hrest _ _ _ _ _ hcall⟩

end Eligibility.RuleTree
