import Eligibility.Proofs.Grammar.Levels
import Eligibility.Proofs.Grammar.Refusal
/-!
# How many groups are open at once

`Token.nestingDepth` counts parentheses without regard to whether they pair up, and passes over a
closing one that has no partner. It is the largest number of parentheses that are open at some place
(`nestingDepth_isGreatest`). Until it stops, the reader has one suspended frame for each of them
(`State.openGroups_of_run`). So nowhere in the tokens does it wait for more groups than that count,
although the count goes on behind the token at which the reader stops; and if it does not stop, it
waits for as many of them at some place.

For the recursive reader this says which limits make no difference, and which cut it off
(`ofTokensWithin_nestingDepth`).
-/

namespace Eligibility

open RuleTree (openAfter openGroups)

/-! ## The count and the open parentheses -/

namespace Token

/-- One token more counts as the parentheses that are open after it. -/
theorem nestingFrom_cons {groups : List Nat} {deepest : Nat} (h : groups.length ≤ deepest)
    (token : Token) (rest : List Token) : nestingFrom groups.length deepest (token :: rest) =
      nestingFrom (openAfter groups token).length (max deepest (openAfter groups token).length)
        rest := by
  rw [nestingFrom, openAfter]
  cases token.kind with
  | openParen => rfl
  | closeParen =>
    rw [List.length_tail, Nat.max_eq_left (Nat.le_trans (Nat.sub_le _ _) h)]
  | connective _ | comparator _ | word _ | quoted _ => rw [Nat.max_eq_left h]

theorem le_nestingFrom (depth deepest : Nat) (tokens : List Token) :
    deepest ≤ nestingFrom depth deepest tokens := by
  induction tokens generalizing depth deepest with
  | nil => exact Nat.le_refl _
  | cons token rest ih =>
    rw [nestingFrom]
    split
    · exact Nat.le_trans (Nat.le_max_left _ _) (ih _ _)
    · exact ih _ _
    · exact ih _ _

/-- Nowhere are more parentheses open than are counted. -/
theorem length_le_nestingFrom {groups : List Nat} {deepest : Nat} {before tokens : List Token}
    (h : groups.length ≤ deepest) (hbefore : before <+: tokens) :
    (before.foldl openAfter groups).length ≤ nestingFrom groups.length deepest tokens := by
  induction tokens generalizing groups deepest before with
  | nil =>
    obtain rfl := List.prefix_nil.1 hbefore
    exact h
  | cons token rest ih =>
    cases before with
    | nil => exact Nat.le_trans h (le_nestingFrom _ _ _)
    | cons first before =>
      obtain ⟨rfl, hrest⟩ := List.cons_prefix_cons.1 hbefore
      rw [nestingFrom_cons h]
      exact ih (Nat.le_max_right _ _) hrest

/-- If the count goes up, then as many parentheses are open at some place. -/
theorem exists_of_nestingFrom {groups : List Nat} {deepest : Nat} (tokens : List Token)
    (h : groups.length ≤ deepest) : nestingFrom groups.length deepest tokens = deepest ∨
      ∃ before, before <+: tokens ∧
        (before.foldl openAfter groups).length = nestingFrom groups.length deepest tokens := by
  induction tokens generalizing groups deepest with
  | nil => exact .inl rfl
  | cons token rest ih =>
    rw [nestingFrom_cons h]
    obtain hcount | ⟨before, hbefore, hlength⟩ :=
      ih (Nat.le_max_right deepest (openAfter groups token).length)
    · rw [hcount]
      obtain hlt | hle := Nat.lt_or_ge deepest (openAfter groups token).length
      · refine .inr ⟨[token], List.cons_prefix_cons.2 ⟨rfl, List.nil_prefix⟩, ?_⟩
        exact (Nat.max_eq_right (Nat.le_of_lt hlt)).symm
      · exact .inl (Nat.max_eq_left hle)
    · exact .inr ⟨token :: before, List.cons_prefix_cons.2 ⟨rfl, hbefore⟩, hlength⟩

/-- **The number of levels is the largest number of parentheses that are open at some place.** -/
theorem nestingDepth_isGreatest (tokens : List Token) :
    (∀ before, before <+: tokens → (openGroups before).length ≤ nestingDepth tokens) ∧
    ∃ before, before <+: tokens ∧ (openGroups before).length = nestingDepth tokens := by
  have hstart : ([] : List Nat).length ≤ 0 := Nat.le_refl _
  refine ⟨fun before => length_le_nestingFrom hstart, ?_⟩
  obtain hzero | hreached := exists_of_nestingFrom tokens hstart
  · exact ⟨[], List.nil_prefix, hzero.symm⟩
  · exact hreached

end Token

namespace RuleTree

/-! ## The reader and the open parentheses -/

namespace State

variable {bound endOffset : Nat} {state next : State} {before tokens : List Token}

/-- The reader suspends one frame for each open parenthesis. -/
theorem length_suspended_of_run (h : start.run tokens = .ok next) :
    next.suspended.length = (RuleTree.openGroups tokens).length := by
  rw [← List.length_map (f := Suspended.openOffset)]
  exact congrArg List.length (openGroups_of_run h)

/-- **The reader suspends no more frames than the parentheses are deep**, wherever it is in the
tokens. -/
theorem length_suspended_le_nestingDepth (hbefore : before <+: tokens)
    (hrun : start.run before = .ok next) :
    next.suspended.length ≤ Token.nestingDepth tokens := by
  rw [length_suspended_of_run hrun]
  exact (Token.nestingDepth_isGreatest tokens).1 before hbefore

/-- What begins a run runs, too. -/
theorem exists_run_of_prefix (h : state.run tokens = .ok next) (hbefore : before <+: tokens) :
    ∃ middle, state.run before = .ok middle := by
  obtain ⟨after, rfl⟩ := hbefore
  cases hrun : state.run before with
  | ok middle => exact ⟨middle, rfl⟩
  | error cause =>
    rw [run_append_error hrun] at h
    cases h

/-- If it takes all of the tokens, it has as many suspended at some place. -/
theorem exists_length_suspended_eq (h : start.run tokens = .ok next) :
    ∃ before middle, before <+: tokens ∧ start.run before = .ok middle ∧
      middle.suspended.length = Token.nestingDepth tokens := by
  obtain ⟨-, deepest, hdeepest, hlength⟩ := Token.nestingDepth_isGreatest tokens
  obtain ⟨middle, hmiddle⟩ := exists_run_of_prefix h hdeepest
  exact ⟨deepest, middle, hdeepest, hmiddle, (length_suspended_of_run hmiddle).trans hlength⟩

/-- A limit that is nowhere exceeded makes no difference. -/
theorem readWithin_of_le (h : ∀ before middle, before <+: tokens → state.run before = .ok middle →
      middle.suspended.length ≤ bound) : readWithin bound endOffset state tokens =
    (state.run tokens >>= fun final => final.finish endOffset).mapError .refused := by
  induction tokens generalizing state with
  | nil => rfl
  | cons token rest ih =>
    rw [readWithin_cons]
    cases hstep : state.step token with
    | error cause =>
      rw [stepWithin_of_error hstep, run, List.foldlM_cons, hstep]
      rfl
    | ok next =>
      have hmove := step_eq_ok_iff.1 hstep
      have hle := h [token] next (List.cons_prefix_cons.2 ⟨rfl, List.nil_prefix⟩)
        (run_cons hmove [])
      rw [stepWithin_of_le hstep hle, Except.ok_bind, run_cons hmove]
      refine ih fun before middle hbefore hrun => ?_
      exact h (token :: before) middle (List.cons_prefix_cons.2 ⟨rfl, hbefore⟩)
        ((run_cons hmove before).trans hrun)

/-- A limit that is exceeded somewhere cuts the reader off. -/
theorem readWithin_of_lt (hstart : state.suspended.length ≤ bound) (hbefore : before <+: tokens)
    (hrun : state.run before = .ok next) (hlt : bound < next.suspended.length) :
    readWithin bound endOffset state tokens = .error .cutOff := by
  induction before generalizing state tokens with
  | nil =>
    obtain rfl := Except.ok.inj hrun
    exact absurd hstart (Nat.not_le.2 hlt)
  | cons token before ih =>
    obtain ⟨rest, rfl⟩ := hbefore
    obtain ⟨middle, hstep, hrun⟩ := Except.bind_eq_ok_iff.1 (List.foldlM_cons.symm.trans hrun)
    rw [List.cons_append, readWithin_cons]
    obtain hcut | hle := Nat.lt_or_ge bound middle.suspended.length
    · rw [stepWithin_of_lt hstep hcut]
      rfl
    · rw [stepWithin_of_le hstep hle]
      exact ih hle (List.prefix_append before rest) hrun

end State

/-! ## The limit on groups -/

/-- **The reader waits for as many groups at once as the parentheses are deep, and for no more.** In
no state that it reaches in any tokens are there more suspended frames; so the recursive reader that
may have that many calls active, or more, gives the same result as without a limit. If the tokens
are read as a rule, there is a state with as many suspended frames, and a lower limit cuts the
recursive reader off. -/
theorem ofTokensWithin_nestingDepth (tokens : List Token) :
    (∀ before state, before <+: tokens → State.start.run before = .ok state →
      state.suspended.length ≤ Token.nestingDepth tokens) ∧
    (∀ limit, Token.nestingDepth tokens ≤ limit →
      ofTokensWithin limit tokens = (ofTokens tokens).mapError .refused) ∧
    ∀ tree, ofTokens tokens = .ok tree →
      (∃ before state, before <+: tokens ∧ State.start.run before = .ok state ∧
        state.suspended.length = Token.nestingDepth tokens) ∧
      ∀ limit, limit < Token.nestingDepth tokens →
        ofTokensWithin limit tokens = .error .cutOff := by
  refine ⟨fun _ _ => State.length_suspended_le_nestingDepth, fun limit hlimit => ?_,
    fun tree hread => ?_⟩
  · by_cases hne : tokens = []
    · rw [hne]
      rfl
    · rw [ofTokensWithin_eq limit hne, ofTokens, if_neg (by simp [hne])]
      exact State.readWithin_of_le fun before state hbefore hrun =>
        Nat.le_trans (State.length_suspended_le_nestingDepth hbefore hrun) hlimit
  · have hne : tokens ≠ [] := by
      rintro rfl
      cases hread
    rw [ofTokens, if_neg (by simp [hne])] at hread
    obtain ⟨final, hrun, -⟩ := Except.bind_eq_ok_iff.1 hread
    obtain ⟨before, state, hbefore, hstate, hdeepest⟩ := State.exists_length_suspended_eq hrun
    refine ⟨⟨before, state, hbefore, hstate, hdeepest⟩, fun limit hlimit => ?_⟩
    rw [ofTokensWithin_eq limit hne]
    exact State.readWithin_of_lt (Nat.zero_le _) hbefore hstate (hdeepest ▸ hlimit)

/-- The tokens of `(a > 1)`. -/
def groupTokens : List Token :=
  [⟨.openParen, 0⟩, ⟨.word "a", 1⟩, ⟨.comparator .greater, 3⟩, ⟨.word "1", 5⟩, ⟨.closeParen, 6⟩]

/-- One group is read within one call, but not without any. Behind a stray closing parenthesis the
group still counts, and the reader refuses the tokens before it gets there. -/
theorem ofTokensWithin_groupTokens :
    let tree : RuleTree := .condition ⟨"a", .greater, .bare "1"⟩
    let opened : State := ⟨[⟨.empty, 0⟩], .empty, .operand⟩
    ofTokens groupTokens = .ok tree ∧ Token.nestingDepth groupTokens = 1 ∧
      State.start.run (groupTokens.take 1) = .ok opened ∧ opened.suspended.length ≤ 1 ∧
      ofTokensWithin 1 groupTokens = .ok tree ∧ ofTokensWithin 0 groupTokens = .error .cutOff ∧
      Token.nestingDepth (⟨.closeParen, 0⟩ :: groupTokens) = 1 ∧
      ofTokensWithin 1 (⟨.closeParen, 0⟩ :: groupTokens) =
        .error (.refused (.unmatchedCloseParen 0)) := by
  intro tree opened
  have hread : ofTokens groupTokens = .ok tree := rfl
  have hopened : State.start.run (groupTokens.take 1) = .ok opened := rfl
  obtain ⟨hbound, hwithin, hreached⟩ := ofTokensWithin_nestingDepth groupTokens
  obtain ⟨-, hstray, -⟩ := ofTokensWithin_nestingDepth (⟨.closeParen, 0⟩ :: groupTokens)
  exact ⟨hread, rfl, hopened, hbound _ opened (List.take_prefix 1 _) hopened,
    hwithin 1 (by decide), (hreached tree hread).2 0 (by decide), rfl, hstray 1 (by decide)⟩

end RuleTree

end Eligibility
