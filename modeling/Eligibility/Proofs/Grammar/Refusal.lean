import Eligibility.Proofs.Grammar.Viable
/-!
# Where a token list stops being a rule

A token list that is no rule is refused in one of two ways (`ofTokens_eq_error`).

*It stops short.* It begins a rule, and the error says what is missing at its end (`shortfall`): the
rest of a condition, or else the partner of the innermost open parenthesis, or else an operand.

*It goes wrong at one token.* The tokens before that one begin a rule and no rule goes on with it.
The error names its offset, and does not depend on what comes after it.

The reader stops where the tokens stop beginning a rule (`viable_iff_run`), so that the first
impossible token is the one that it refuses, for one of the reasons of `State.Refused`. What is
missing at the end can be read off the last tokens (`openCondition?`) and off the parentheses
(`openGroups`), without running the reader; the state at the end agrees
(`State.eq_shortfall_of_finish`).
-/

namespace Eligibility

open Token (Kind)

/-- The offset that a grammar error names. -/
def ParseError.offset? : ParseError → Option Nat
  | .empty => none
  | .unterminatedString offset | .unmatchedCloseParen offset | .unclosedParen offset
  | .missingOperand offset | .incompleteCondition _ _ offset | .unexpectedToken _ offset =>
    some offset

theorem Condition.eq_of_comparatorOf_error {field : String} {token : Token} {cause : ParseError}
    (h : comparatorOf field token = .error cause) :
    cause = .incompleteCondition field .comparator token.offset := by
  unfold comparatorOf at h
  split at h
  · simp at h
  · exact (Except.error.inj h).symm

theorem Condition.eq_of_literalOf_error {field : String} {token : Token} {cause : ParseError}
    (h : literalOf field token = .error cause) :
    cause = .incompleteCondition field .literal token.offset := by
  unfold literalOf at h
  split at h
  · simp at h
  · simp at h
  · exact (Except.error.inj h).symm

namespace RuleTree

/-! ## A token that cannot stand where it is -/

namespace Frame.Opens

variable {frame : Frame} {kinds kinds' : List Kind} {tree : RuleTree}

/-- A connective can always follow an operand. -/
theorem exists_await (h : Opens .factor frame kinds) (hd : Derives .factor kinds' tree)
    (pending : Pending) : ∃ awaiting, (frame.push tree).await pending = .ok awaiting := by
  obtain ⟨connective, offset⟩ := pending
  cases connective with
  | and =>
    obtain ⟨_, _, _, _, hset, -⟩ := h.settles_term hd
    exact ⟨_, hset.await ⟨.and, offset⟩⟩
  | or =>
    obtain ⟨_, hset, -⟩ := h.settles_level hd
    exact ⟨_, hset.await ⟨.or, offset⟩⟩

/-- A level can always end after an operand. -/
theorem exists_finish (h : Opens .factor frame kinds) (hd : Derives .factor kinds' tree) :
    ∃ root, (frame.push tree).finish = .ok root := by
  obtain ⟨root, hset, -⟩ := h.settles_level hd
  exact ⟨root, hset.finish⟩

end Frame.Opens

namespace State

variable {state : State} {kinds : List Kind} {token : Token} {cause : ParseError}

/-- The condition in which a state is. -/
def openCondition? (state : State) : Option (String × ConditionPart) :=
  match state.phase with
  | .comparator field => some (field, .comparator)
  | .literal field _ => some (field, .literal)
  | .operand | .connective => none

/-- `state.Refused token cause`: why a state takes no such token. A condition goes on with another
one; or an operand is due; or the parenthesis has no partner; or the token goes with nothing. -/
inductive Refused (state : State) (token : Token) : ParseError → Prop
  | incomplete {field : String} {part : ConditionPart} :
    state.openCondition? = some (field, part) →
      Refused state token (.incompleteCondition field part token.offset)
  | missingOperand : state.phase = .operand →
      token.kind = .closeParen ∨ (∃ op, token.kind = .connective op) →
      Refused state token (.missingOperand token.offset)
  | unmatched : state.suspended = [] → token.kind = .closeParen →
      Refused state token (.unmatchedCloseParen token.offset)
  | unexpected : Refused state token token.unexpected

theorem Refused.offset?_eq (h : Refused state token cause) : cause.offset? = some token.offset := by
  cases h <;> rfl

theorem refused_of_stepOperand (hphase : state.phase = .operand)
    (h : state.stepOperand token = .error cause) : Refused state token cause := by
  obtain ⟨suspended, frame, phase⟩ := state
  obtain ⟨kind, offset⟩ := token
  cases kind with
  | openParen | word _ => simp [stepOperand] at h
  | closeParen =>
    cases suspended with
    | nil =>
      obtain rfl := Except.error.inj h
      exact .unmatched rfl rfl
    | cons _ _ =>
      obtain rfl := Except.error.inj h
      exact .missingOperand hphase (.inl rfl)
  | connective op =>
    obtain rfl := Except.error.inj h
    exact .missingOperand hphase (.inr ⟨op, rfl⟩)
  | comparator _ | quoted _ =>
    obtain rfl := Except.error.inj h
    exact .unexpected

/-- **The reasons to refuse a token**, in every state that the reader reaches. -/
theorem Follows.refused (h : state.Follows kinds) (hstep : state.step token = .error cause) :
    Refused state token cause := by
  cases h with
  | operand => exact refused_of_stepOperand rfl hstep
  | comparator _ =>
    obtain h | ⟨_, _, h⟩ := Except.bind_eq_error_iff.1 hstep
    · exact Condition.eq_of_comparatorOf_error h ▸ .incomplete rfl
    · simp at h
  | literal _ =>
    obtain h | ⟨_, _, h⟩ := Except.bind_eq_error_iff.1 hstep
    · exact Condition.eq_of_literalOf_error h ▸ .incomplete rfl
    · simp at h
  | connective hs hf hd =>
    obtain ⟨kind, offset⟩ := token
    cases kind with
    | connective connective =>
      -- what waits always settles, so a connective is not refused
      obtain ⟨_, hawait⟩ := hf.exists_await hd ⟨connective, offset⟩
      simp [step, stepConnective, hawait] at hstep
    | closeParen =>
      cases hs with
      | nil =>
        obtain rfl := Except.error.inj hstep
        exact .unmatched rfl rfl
      | cons =>
        obtain ⟨_, hfinish⟩ := hf.exists_finish hd
        simp [step, stepConnective, hfinish] at hstep
    | openParen | word _ | comparator _ | quoted _ =>
      obtain rfl := Except.error.inj hstep
      exact .unexpected

end State

/-! ## What is missing at the end -/

/-- The condition in which some tokens stop: its field, and the part of it that is due. After a
word the comparator is due, unless the word is a literal; after a comparator the literal is due. -/
def openCondition? (kinds : List Kind) : Option (String × ConditionPart) :=
  match kinds.reverse with
  | .comparator _ :: .word field :: _ => some (field, .literal)
  | .word _ :: .comparator _ :: _ => none
  | .word field :: _ => some (field, .comparator)
  | _ => none

/-- The open parentheses after one more token, by their offsets, the innermost first. -/
def openAfter (groups : List Nat) (token : Token) : List Nat :=
  match token.kind with
  | .openParen => token.offset :: groups
  | .closeParen => groups.tail
  | _ => groups

/-- The open parentheses after some tokens, by their offsets, the innermost first. -/
def openGroups (tokens : List Token) : List Nat :=
  tokens.foldl openAfter []

/-- What is missing at the end of some tokens that begin a rule. -/
def shortfall (tokens : List Token) : ParseError :=
  match openCondition? (tokens.map Token.kind), openGroups tokens with
  | some (field, part), _ => .incompleteCondition field part (endOffset tokens)
  | none, innermost :: _ => .unclosedParen innermost
  | none, [] => .missingOperand (endOffset tokens)

namespace State

variable {state next : State} {kinds : List Kind} {tokens : List Token}

/-- The open parentheses around a state, by their offsets, the innermost first. -/
def openGroups (state : State) : List Nat :=
  state.suspended.map Suspended.openOffset

theorem Move.openGroups_eq {token : Token} (h : Move state token next) :
    next.openGroups = openAfter state.openGroups token := by
  cases h with
  | @literal _ _ c => obtain ⟨_, _, _ | _⟩ := c <;> rfl
  | openParen | word | comparator | connective | closeParen => rfl

/-- **The suspended frames wait for the open parentheses.** -/
theorem openGroups_of_run (h : state.run tokens = .ok next) :
    next.openGroups = tokens.foldl openAfter state.openGroups := by
  induction tokens generalizing state with
  | nil =>
    obtain rfl := Except.ok.inj h
    rfl
  | cons token tokens ih =>
    obtain ⟨middle, hstep, hrun⟩ := Except.bind_eq_ok_iff.1 (List.foldlM_cons.symm.trans h)
    rw [ih hrun, (step_eq_ok_iff.1 hstep).openGroups_eq, List.foldl_cons]

end State

/-- An operand may come after these tokens: there are none, or the last of them is an opening
parenthesis or a connective. -/
def BeforeOperand (kinds : List Kind) : Prop :=
  ∀ kind ∈ kinds.reverse.head?, kind = .openParen ∨ ∃ op, kind = .connective op

theorem BeforeOperand.openCondition?_eq {kinds : List Kind} (h : BeforeOperand kinds) :
    openCondition? kinds = none := by
  unfold openCondition?
  cases hlast : kinds.reverse with
  | nil => rfl
  | cons kind _ =>
    obtain rfl | ⟨op, rfl⟩ := h kind (by simp [hlast])
    · rfl
    · rfl

theorem BeforeOperand.openCondition?_word {kinds : List Kind} (h : BeforeOperand kinds)
    (field : String) : openCondition? (kinds ++ [.word field]) = some (field, .comparator) := by
  rw [openCondition?, List.reverse_concat]
  cases hlast : kinds.reverse with
  | nil => rfl
  | cons kind _ =>
    obtain rfl | ⟨op, rfl⟩ := h kind (by simp [hlast])
    · rfl
    · rfl

theorem Frame.Opens.beforeOperand {category : Category} {frame : Frame} {kinds kinds' : List Kind}
    (h : frame.Opens category kinds') (hkinds : BeforeOperand kinds) :
    BeforeOperand (kinds ++ kinds') := by
  induction h with
  | start => simpa using hkinds
  | ofExpression _ ih | ofTerm _ ih => exact ih
  | afterOr _ | afterAnd _ _ => simp [BeforeOperand]

theorem Surrounds.beforeOperand {suspended : List Suspended} {kinds : List Kind}
    (h : Surrounds suspended kinds) : BeforeOperand kinds := by
  cases h with
  | nil => simp [BeforeOperand]
  | cons => simp [BeforeOperand]

/-- After an operand, no condition is open. -/
theorem Derives.openCondition?_eq {kinds kinds' : List Kind} {tree : RuleTree}
    (h : Derives .factor kinds' tree) : openCondition? (kinds ++ kinds') = none := by
  cases h with
  | condition c =>
    obtain ⟨_, _, _ | _⟩ := c <;> simp [openCondition?, Condition.kinds, Literal.kind]
  | group => simp [openCondition?]

namespace State

variable {state : State} {kinds : List Kind} {tokens : List Token}

theorem Follows.beforeOperand {suspended : List Suspended} {frame : Frame}
    (h : Follows ⟨suspended, frame, .operand⟩ kinds) : BeforeOperand kinds := by
  cases h with
  | operand hs hf => exact hf.beforeOperand hs.beforeOperand

/-- **The last tokens tell whether a condition is open.** -/
theorem Follows.openCondition?_eq (h : state.Follows kinds) :
    RuleTree.openCondition? kinds = state.openCondition? := by
  cases h with
  | operand hs hf => exact (Follows.operand hs hf).beforeOperand.openCondition?_eq
  | comparator h => exact h.beforeOperand.openCondition?_word _
  | literal h =>
    cases h with
    | comparator h => simp [RuleTree.openCondition?, openCondition?]
  | connective _ _ hd => exact hd.openCondition?_eq

/-- **At the end of the input the error says what is missing.** -/
theorem eq_shortfall_of_finish {cause : ParseError} (hrun : start.run tokens = .ok state)
    (hfinish : state.finish (endOffset tokens) = .error cause) : cause = shortfall tokens := by
  have hfollows := follows_of_run hrun
  have hgroups : state.openGroups = RuleTree.openGroups tokens := openGroups_of_run hrun
  rw [shortfall, hfollows.openCondition?_eq, ← hgroups]
  generalize tokens.map Token.kind = kinds at hfollows
  cases hfollows with
  | comparator | literal => exact (Except.error.inj hfinish).symm
  | operand hs =>
    cases hs <;> exact (Except.error.inj hfinish).symm
  | connective hs hf hd =>
    cases hs with
    | nil =>
      obtain ⟨_, hroot⟩ := hf.exists_finish hd
      simp [finish, hroot] at hfinish
    | cons => exact (Except.error.inj hfinish).symm

end State

/-! ## The two ways to be no rule -/

/-- The tokens stop short: more tokens would make them a rule, and the error says what is missing
at their end. -/
def StopsShort (tokens : List Token) (cause : ParseError) : Prop :=
  (∃ rest tree, rest ≠ [] ∧ ofTokens (tokens ++ rest) = .ok tree) ∧ cause = shortfall tokens

/-- The first `index` tokens begin a rule and no rule begins with one token more. -/
def FirstImpossible (tokens : List Token) (index : Nat) : Prop :=
  index < tokens.length ∧ Viable (tokens.take index) ∧ ¬ Viable (tokens.take (index + 1))

/-- The tokens go wrong at one token: it is the only one that is the first impossible one, the error
names its offset, and whatever begins with the tokens up to it fails with that error. -/
def GoesWrong (tokens : List Token) (cause : ParseError) : Prop :=
  ∃ index token, (∀ other, FirstImpossible tokens other ↔ other = index) ∧
    tokens[index]? = some token ∧ cause.offset? = some token.offset ∧
    ∀ rest, ofTokens (tokens.take (index + 1) ++ rest) = .error cause

theorem FirstImpossible.not_viable {tokens : List Token} {index : Nat}
    (h : FirstImpossible tokens index) : ¬ Viable tokens := by
  rw [← List.take_append_drop (index + 1) tokens]
  exact fun hviable => h.2.2 hviable.of_append

/-- There is only one first impossible token. -/
theorem FirstImpossible.le {tokens : List Token} {index other : Nat}
    (h : FirstImpossible tokens index) (h' : FirstImpossible tokens other) : index ≤ other := by
  refine Nat.le_of_not_lt fun hlt => h'.2.2 ?_
  obtain ⟨more, hmore⟩ := List.take_prefix_take_left (l := tokens) (Nat.succ_le_of_lt hlt)
  exact Viable.of_append (hmore ▸ h.2.1)

theorem stopsShort_of_run {tokens : List Token} {state : State} {cause : ParseError}
    (hrun : State.start.run tokens = .ok state) (hne : tokens ≠ [])
    (h : ofTokens tokens = .error cause) : StopsShort tokens cause := by
  obtain ⟨rest, tree, hread⟩ := viable_iff_run.2 ⟨state, hrun⟩
  refine ⟨⟨rest, tree, ?_, hread⟩, State.eq_shortfall_of_finish hrun ?_⟩
  · rintro rfl
    rw [List.append_nil, h] at hread
    simp at hread
  · simpa [ofTokens, hne, hrun] using h

theorem goesWrong_of_run {tokens : List Token} {cause : ParseError}
    (hrun : State.start.run tokens = .error cause) : GoesWrong tokens cause := by
  obtain ⟨before, token, after, state, rfl, hbefore, hstep⟩ := State.exists_step_of_run_error hrun
  have htake : (before ++ token :: after).take before.length = before := by simp
  have htakeSucc : (before ++ token :: after).take (before.length + 1) = before ++ [token] := by
    rw [List.take_length_add_append, List.take_succ_cons, List.take_zero]
  have hfails : State.start.run (before ++ [token]) = .error cause := by
    rw [State.run_append hbefore, State.run, List.foldlM_cons, hstep]
    rfl
  have hfirst : FirstImpossible (before ++ token :: after) before.length := by
    refine ⟨by simp, ?_, ?_⟩
    · rw [htake]
      exact viable_iff_run.2 ⟨state, hbefore⟩
    · rw [htakeSucc, viable_iff_run, hfails]
      simp
  refine ⟨before.length, token, fun other => ⟨fun h => ?_, fun h => h ▸ hfirst⟩, by simp,
    ((State.follows_of_run hbefore).refused hstep).offset?_eq, fun rest => ?_⟩
  · exact Nat.le_antisymm (h.le hfirst) (hfirst.le h)
  · rw [htakeSucc, ofTokens, State.run_append_error hfails]
    simp

theorem StopsShort.ne_empty {tokens : List Token} {cause : ParseError}
    (h : StopsShort tokens cause) : cause ≠ .empty := by
  rw [h.2, shortfall]
  split <;> simp

theorem GoesWrong.ne_empty {tokens : List Token} {cause : ParseError}
    (h : GoesWrong tokens cause) : cause ≠ .empty := by
  rintro rfl
  obtain ⟨_, _, -, -, hoffset, -⟩ := h
  simp [ParseError.offset?] at hoffset

/-- **A token list that is no rule stops short or goes wrong at its first impossible token**, and
never both. It is not taken for an empty one. -/
theorem ofTokens_eq_error (tokens : List Token) (cause : ParseError) (hne : tokens ≠ [])
    (h : ofTokens tokens = .error cause) :
    (StopsShort tokens cause ∨ GoesWrong tokens cause) ∧
      ¬ (StopsShort tokens cause ∧ GoesWrong tokens cause) ∧ cause ≠ .empty := by
  have hways : StopsShort tokens cause ∨ GoesWrong tokens cause := by
    cases hrun : State.start.run tokens with
    | ok state => exact .inl (stopsShort_of_run hrun hne h)
    | error other =>
      have hcause : other = cause := by simpa [ofTokens, hne, hrun] using h
      exact .inr (goesWrong_of_run (hcause ▸ hrun))
  refine ⟨hways, ?_, hways.elim StopsShort.ne_empty GoesWrong.ne_empty⟩
  rintro ⟨⟨⟨rest, tree, -, hread⟩, -⟩, index, -, hindex, -⟩
  exact ((hindex index).2 rfl).not_viable ⟨rest, tree, hread⟩

/-- The tokens of `(a > 1 b`. -/
def adjacentTokens : List Token :=
  [⟨.openParen, 0⟩, ⟨.word "a", 1⟩, ⟨.comparator .greater, 3⟩, ⟨.word "1", 5⟩, ⟨.word "b", 7⟩]

/-- The second word after the parenthesis goes wrong; without it the group is not closed. -/
theorem ofTokens_adjacentTokens :
    adjacentTokens ≠ [] ∧ ofTokens adjacentTokens = .error (.unexpectedToken "b" 7) ∧
      GoesWrong adjacentTokens (.unexpectedToken "b" 7) ∧
      adjacentTokens.take 4 ≠ [] ∧ ofTokens (adjacentTokens.take 4) = .error (.unclosedParen 0) ∧
      StopsShort (adjacentTokens.take 4) (.unclosedParen 0) ∧
      ¬ GoesWrong (adjacentTokens.take 4) (.unclosedParen 0) := by
  have hwrong : ofTokens adjacentTokens = .error (.unexpectedToken "b" 7) := rfl
  have hopen : ofTokens (adjacentTokens.take 4) = .error (.unclosedParen 0) := rfl
  have hshort : StopsShort (adjacentTokens.take 4) (.unclosedParen 0) :=
    ⟨⟨[⟨.closeParen, 6⟩], .condition ⟨"a", .greater, .bare "1"⟩, by simp, rfl⟩, rfl⟩
  obtain ⟨hways, -⟩ := ofTokens_eq_error adjacentTokens _ (by decide) hwrong
  obtain ⟨-, hnotBoth, -⟩ := ofTokens_eq_error (adjacentTokens.take 4) _ (by decide) hopen
  refine ⟨by decide, hwrong, hways.resolve_left fun h => ?_, by decide, hopen, hshort,
    fun h => hnotBoth ⟨hshort, h⟩⟩
  exact absurd h.2 (by decide)

end RuleTree

end Eligibility
