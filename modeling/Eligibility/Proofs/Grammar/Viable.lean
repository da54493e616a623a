import Eligibility.Proofs.Grammar.Reader
/-!
# Beginnings of rules

Tokens begin a rule exactly as long as the reader has a next state (`viable_iff_run`). Every state
that the reader reaches can be completed (`State.Follows.exists_derives`): a condition is finished
or, where an operand is due, supplied, and then the open parentheses get their partners.
-/

namespace Eligibility.RuleTree

open Token (Kind)

/-- Some tokens begin a token list that is read as a rule. -/
def Viable (tokens : List Token) : Prop :=
  ∃ rest tree, ofTokens (tokens ++ rest) = .ok tree

theorem Viable.of_append {tokens rest : List Token} (h : Viable (tokens ++ rest)) :
    Viable tokens := by
  obtain ⟨rest', tree, h⟩ := h
  exact ⟨rest ++ rest', tree, by rwa [← List.append_assoc]⟩

/-! ## Every state can be completed -/

/-- After a complete operand, the partners of the open parentheses complete a rule. -/
theorem Surrounds.exists_derives {suspended : List Suspended} {kinds : List Kind}
    (h : Surrounds suspended kinds) {frame : Frame} {kinds' kinds'' : List Kind} {tree : RuleTree}
    (hopens : frame.Opens .factor kinds') (hd : Derives .factor kinds'' tree) :
    ∃ rest root, Derives .expression (kinds ++ kinds' ++ kinds'' ++ rest) root := by
  obtain ⟨whole, -, hwhole⟩ := hopens.settles_level hd
  induction h generalizing frame kinds' kinds'' tree whole with
  | nil => exact ⟨[], whole, by simpa using hwhole⟩
  | cons _ _ houter ih =>
    -- the level becomes a group, which is an operand of the level around it
    obtain ⟨outer, -, houter'⟩ := houter.settles_level hwhole.group
    obtain ⟨rest, root, hroot⟩ := ih houter hwhole.group outer houter'
    exact ⟨.closeParen :: rest, root, by simpa using hroot⟩

namespace State

variable {state : State} {kinds : List Kind}

/-- **The tokens that lead to a state begin an expression.** -/
theorem Follows.exists_derives (h : state.Follows kinds) :
    ∃ rest root, Derives .expression (kinds ++ rest) root := by
  have hoperand : ∀ {suspended frame kinds}, Follows ⟨suspended, frame, .operand⟩ kinds →
      ∀ c : Condition, ∃ rest root, Derives .expression (kinds ++ c.kinds ++ rest) root := by
    intro suspended frame kinds h c
    cases h with
    | operand hs hf => exact hs.exists_derives hf (.condition c)
  cases h with
  | operand hs hf =>
    obtain ⟨rest, root, hroot⟩ := hs.exists_derives hf (.condition ⟨"x", .equal, .quoted ""⟩)
    exact ⟨_, root, by simpa only [List.append_assoc] using hroot⟩
  | @comparator _ _ _ field h =>
    obtain ⟨rest, root, hroot⟩ := hoperand h ⟨field, .equal, .quoted ""⟩
    exact ⟨_, root, by simpa [Condition.kinds] using hroot⟩
  | @literal _ _ _ field comparator h =>
    cases h with
    | comparator h =>
      obtain ⟨rest, root, hroot⟩ := hoperand h ⟨field, comparator, .quoted ""⟩
      exact ⟨_, root, by simpa [Condition.kinds] using hroot⟩
  | connective hs hf hd => exact hs.exists_derives hf hd

end State

theorem viable_of_derives {tokens : List Token} {rest : List Kind} {tree : RuleTree}
    (h : Derives .expression (tokens.map Token.kind ++ rest) tree) : Viable tokens := by
  refine ⟨rest.map (Token.mk · 0), tree, ofTokens_of_derives ?_⟩
  simpa [Function.comp_def] using h

/-- **The reader goes on as long as the tokens begin a rule.** -/
theorem viable_iff_run {tokens : List Token} :
    Viable tokens ↔ ∃ state, State.start.run tokens = .ok state := by
  constructor
  · rintro ⟨rest, tree, h⟩
    cases hrun : State.start.run tokens with
    | ok state => exact ⟨state, rfl⟩
    | error cause =>
      rw [ofTokens, State.run_append_error hrun] at h
      split at h <;> simp at h
  · rintro ⟨state, hrun⟩
    obtain ⟨rest, root, hroot⟩ := (State.follows_of_run hrun).exists_derives
    exact viable_of_derives hroot

end Eligibility.RuleTree
