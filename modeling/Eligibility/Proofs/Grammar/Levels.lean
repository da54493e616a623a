import Eligibility.Proofs.Grammar.Machine
/-!
# Reading one level at a time

The machine keeps the levels that wait in a list. A recursive reader keeps them in its calls:
`readLevel` reads one level of parentheses, calls itself where a group opens, and goes on behind the
group with what the call returns. A limit on the calls that may be active at once cuts it off, and
`ofTokensWithin` starts it at the top level.

A call of `readLevel` is a run of the machine down to the end of a level (`readWithin_eq`), where
the number of suspended frames is the number of active calls. So the recursive reader is cut off
just where the machine would suspend one frame too many (`ofTokensWithin_eq`). What one token does
on both sides is told before: where a group opens (`State.readWithin_openParen_of_lt`), where one
closes (`State.readWithin_closeParen`), and within a level (`State.readWithin_ofLevel`).
-/

namespace Eligibility.RuleTree

/-! ## The recursive reader -/

/-- How a reader with a limit ends without a rule. -/
inductive Halt
  /-- A group opens in as many groups as may be open. -/
  | cutOff
  /-- The tokens are refused, as they are without a limit. -/
  | refused (cause : ParseError)
  deriving DecidableEq, Repr

/-- The rule of one level, and the tokens behind it. -/
structure Level (tokens : List Token) where
  tree : RuleTree
  rest : List Token
  length_le : rest.length ≤ tokens.length

/-- A level that starts some tokens later ends where it does. -/
def Level.later {tokens tokens' : List Token} (level : Level tokens')
    (h : tokens'.length ≤ tokens.length) : Level tokens :=
  { level with length_le := Nat.le_trans level.length_le h }

/-- The state of a machine at some place in one level. All that it knows of the levels around this
one is the offset of the parenthesis that opened it, if there are any. -/
def State.ofLevel (opened : Option Nat) (frame : Frame) (phase : Phase) : State :=
  ⟨(opened.map (Suspended.mk .empty)).toList, frame, phase⟩

/-- The rest of one level. At most `limit` calls may be active within this one. -/
def readLevel (endOffset limit : Nat) (opened : Option Nat) (frame : Frame) (phase : Phase)
    (tokens : List Token) : Except Halt (Level tokens) :=
  match tokens with
  | [] => do
    let tree ← ((State.ofLevel opened frame phase).finish endOffset).mapError .refused
    return ⟨tree, [], Nat.le_refl _⟩
  | token :: rest =>
    match phase, token.kind, opened with
    | .operand, .openParen, _ =>
      match limit with
      | 0 => .error .cutOff
      | limit + 1 => do
        let group ← readLevel endOffset limit (some token.offset) .empty .operand rest
        let level ← readLevel endOffset (limit + 1) opened (frame.push group.tree) .connective
          group.rest
        return level.later (Nat.le_succ_of_le group.length_le)
    | .connective, .closeParen, some _ => do
      let tree ← frame.finish.mapError .refused
      return ⟨tree, rest, Nat.le_succ _⟩
    | _, _, _ => do
      let next ← ((State.ofLevel opened frame phase).step token).mapError .refused
      let level ← readLevel endOffset limit opened next.frame next.phase rest
      return level.later (Nat.le_succ _)
termination_by tokens.length
decreasing_by all_goals first | exact Nat.lt_succ_of_le group.length_le | exact Nat.lt_succ_self _

/-- The rule that a token list writes, read with at most `limit` groups open at once. -/
def ofTokensWithin (limit : Nat) (tokens : List Token) : Except Halt RuleTree :=
  if tokens.isEmpty then .error (.refused .empty)
  else Level.tree <$> readLevel (endOffset tokens) limit none .empty .operand tokens

/-! ## The machine with a limit -/

namespace State

/-- The state after one more token, if it has no more suspended frames than it may have. -/
def stepWithin (bound : Nat) (state : State) (token : Token) : Except Halt State := do
  let next ← (state.step token).mapError .refused
  if bound < next.suspended.length then .error .cutOff else .ok next

/-- The rule that a machine reads which is cut off where it has more suspended frames than it may
have. -/
def readWithin (bound endOffset : Nat) (state : State) (tokens : List Token) :
    Except Halt RuleTree := do
  let final ← tokens.foldlM (stepWithin bound) state
  (final.finish endOffset).mapError .refused

variable {bound endOffset : Nat}

theorem readWithin_nil (state : State) :
    readWithin bound endOffset state [] = (state.finish endOffset).mapError .refused := rfl

theorem readWithin_cons (state : State) (token : Token) (rest : List Token) :
    readWithin bound endOffset state (token :: rest) =
      state.stepWithin bound token >>= fun next => readWithin bound endOffset next rest := by
  rw [readWithin, List.foldlM_cons, bind_assoc]
  rfl

theorem stepWithin_of_le {state next : State} {token : Token} (h : state.step token = .ok next)
    (hle : next.suspended.length ≤ bound) : state.stepWithin bound token = .ok next := by
  rw [stepWithin, h]
  exact if_neg (Nat.not_lt.2 hle)

theorem stepWithin_of_lt {state next : State} {token : Token} (h : state.step token = .ok next)
    (hlt : bound < next.suspended.length) : state.stepWithin bound token = .error .cutOff := by
  rw [stepWithin, h]
  exact if_pos hlt

theorem stepWithin_of_error {state : State} {token : Token} {cause : ParseError}
    (h : state.step token = .error cause) :
    state.stepWithin bound token = .error (.refused cause) := by
  rw [stepWithin, h]
  rfl

end State

/-! ## Calls as runs of the machine -/

section

variable {endOffset : Nat} {phase : Phase} {token : Token}

/-- The offset of the parenthesis that opened the current level, if it is not the top one. -/
def openedAt (stack : List Suspended) : Option Nat :=
  stack.head?.map Suspended.openOffset

/-- The end of the input is the same to a level and to the whole machine. -/
theorem State.finish_eq_ofLevel (stack : List Suspended) (frame : Frame) :
    State.finish ⟨stack, frame, phase⟩ endOffset =
      (State.ofLevel (openedAt stack) frame phase).finish endOffset := by
  cases stack <;> cases phase <;> rfl

/-- A token that opens no group and closes none is the same to a level and to the whole machine. -/
theorem State.step_eq_ofLevel (stack : List Suspended) (frame : Frame)
    (hopen : phase = .operand → token.kind ≠ .openParen)
    (hclose : phase = .connective → token.kind = .closeParen → stack = []) :
    State.step ⟨stack, frame, phase⟩ token =
      (fun next => ⟨stack, next.frame, next.phase⟩) <$>
        (State.ofLevel (openedAt stack) frame phase).step token := by
  obtain ⟨kind, offset⟩ := token
  cases phase with
  | operand =>
    cases kind with
    | openParen => exact absurd rfl (hopen rfl)
    | closeParen => cases stack <;> rfl
    | connective _ | comparator _ | word _ | quoted _ => rfl
  | comparator field =>
    simp only [step, ofLevel]
    cases Condition.comparatorOf field ⟨kind, offset⟩ <;> rfl
  | literal field comparator =>
    simp only [step, ofLevel]
    cases Condition.literalOf field ⟨kind, offset⟩ <;> rfl
  | connective =>
    cases kind with
    | closeParen =>
      obtain rfl := hclose rfl rfl
      rfl
    | connective op =>
      simp only [step, stepConnective, ofLevel]
      cases frame.await ⟨op, offset⟩ <;> rfl
    | openParen | comparator _ | word _ | quoted _ => rfl

theorem State.step_openParen (stack : List Suspended) (frame : Frame)
    (h : token.kind = .openParen) : State.step ⟨stack, frame, .operand⟩ token =
      .ok ⟨⟨frame, token.offset⟩ :: stack, .empty, .operand⟩ := by
  rw [step, stepOperand, h]

variable {bound : Nat} {stack suspended : List Suspended} {frame : Frame} {rest : List Token}

/-- A group that opens in as many as may be open cuts the machine off. -/
theorem State.readWithin_openParen_of_le (hkind : token.kind = .openParen)
    (hle : bound ≤ stack.length) :
    readWithin bound endOffset ⟨stack, frame, .operand⟩ (token :: rest) = .error .cutOff := by
  rw [readWithin_cons, stepWithin_of_lt (step_openParen stack frame hkind) (Nat.lt_succ_of_le hle)]
  rfl

/-- The machine goes a level down where a group opens. -/
theorem State.readWithin_openParen_of_lt (hkind : token.kind = .openParen)
    (hlt : stack.length < bound) :
    readWithin bound endOffset ⟨stack, frame, .operand⟩ (token :: rest) =
      readWithin bound endOffset ⟨⟨frame, token.offset⟩ :: stack, .empty, .operand⟩ rest := by
  rw [readWithin_cons, stepWithin_of_le (step_openParen stack frame hkind) hlt, Except.ok_bind]

/-- A step that suspends no frame too many, by the part of it that may fail. -/
theorem State.readWithin_cons_of_step {α : Type} {state : State} {part : Except ParseError α}
    {next : α → State} (hstep : state.step token = next <$> part)
    (hle : ∀ result, (next result).suspended.length ≤ bound) :
    readWithin bound endOffset state (token :: rest) =
      part.mapError .refused >>= fun result => readWithin bound endOffset (next result) rest := by
  rw [readWithin_cons]
  cases part with
  | error cause =>
    rw [stepWithin_of_error hstep]
    rfl
  | ok result =>
    rw [stepWithin_of_le hstep (hle result)]
    rfl

/-- The machine goes a level up where a group closes. -/
theorem State.readWithin_closeParen {outer : Suspended} (hkind : token.kind = .closeParen)
    (hle : suspended.length ≤ bound) :
    readWithin bound endOffset ⟨outer :: suspended, frame, .connective⟩ (token :: rest) =
      frame.finish.mapError .refused >>= fun tree =>
        readWithin bound endOffset ⟨suspended, outer.frame.push tree, .connective⟩ rest := by
  have hstep : step ⟨outer :: suspended, frame, .connective⟩ token =
      (fun tree => ⟨suspended, outer.frame.push tree, .connective⟩) <$> frame.finish := by
    rw [step, stepConnective, hkind]
    cases frame.finish <;> rfl
  exact readWithin_cons_of_step hstep fun _ => hle

/-- Any other token does to the machine what it does to the level. -/
theorem State.readWithin_ofLevel (hle : stack.length ≤ bound)
    (hopen : phase = .operand → token.kind ≠ .openParen)
    (hclose : phase = .connective → token.kind = .closeParen → stack = []) :
    readWithin bound endOffset ⟨stack, frame, phase⟩ (token :: rest) =
      ((ofLevel (openedAt stack) frame phase).step token).mapError .refused >>= fun next =>
        readWithin bound endOffset ⟨stack, next.frame, next.phase⟩ rest :=
  readWithin_cons_of_step (step_eq_ofLevel stack frame hopen hclose) fun _ => hle

end

/-- What is left to do when a level ends. -/
def resume (bound endOffset : Nat) (stack : List Suspended) {tokens : List Token}
    (level : Level tokens) : Except Halt RuleTree :=
  match stack with
  | [] => .ok level.tree
  | outer :: suspended =>
    State.readWithin bound endOffset ⟨suspended, outer.frame.push level.tree, .connective⟩
      level.rest

/-- **A call reads its level as the machine does**, with as many suspended frames as there are calls
around it. It is cut off when the machine is, and when it returns the machine goes on in the level
around it. -/
theorem readWithin_eq (endOffset limit : Nat) (stack : List Suspended) (frame : Frame)
    (phase : Phase) (tokens : List Token) :
    State.readWithin (stack.length + limit) endOffset ⟨stack, frame, phase⟩ tokens =
      readLevel endOffset limit (openedAt stack) frame phase tokens >>=
        resume (stack.length + limit) endOffset stack := by
  generalize hopened : openedAt stack = opened
  fun_induction readLevel endOffset limit opened frame phase tokens generalizing stack with
  -- the tokens end
  | case1 limit opened frame phase =>
    rw [State.readWithin_nil, State.finish_eq_ofLevel, hopened]
    subst hopened
    cases stack with
    | nil => cases (State.ofLevel (openedAt []) frame phase).finish endOffset <;> rfl
    | cons => cases phase <;> rfl
  -- a group opens in as many as may be open
  | case2 opened frame token rest hkind =>
    rw [Nat.add_zero, State.readWithin_openParen_of_le hkind (Nat.le_refl _)]
    rfl
  -- a group opens: one call reads it, another one goes on behind it
  | case3 opened frame token rest hkind limit ihgroup ihlevel =>
    have hgroup := ihgroup (⟨frame, token.offset⟩ :: stack) rfl
    rw [List.length_cons, Nat.add_right_comm, Nat.add_assoc] at hgroup
    rw [State.readWithin_openParen_of_lt hkind (Nat.lt_add_of_pos_right limit.succ_pos), hgroup]
    cases readLevel endOffset limit (some token.offset) .empty .operand rest with
    | error halt => rfl
    | ok group =>
      rw [Except.ok_bind, Except.ok_bind, bind_assoc]
      exact ihlevel group stack hopened
  -- the group closes, and the machine resumes the level around it
  | case4 limit frame token rest offset hkind =>
    cases stack with
    | nil => cases hopened
    | cons outer suspended =>
      have hle : suspended.length ≤ (outer :: suspended).length + limit :=
        Nat.le_add_right_of_le (Nat.le_succ _)
      rw [State.readWithin_closeParen hkind hle]
      cases frame.finish <;> rfl
  -- any other token stays in the level
  | case5 limit opened frame phase token rest hopen hclose ih =>
    have hstays : phase = .connective → token.kind = .closeParen → stack = [] := by
      intro hphase hkind
      cases stack with
      | nil => rfl
      | cons outer _ => exact absurd hopened.symm (hclose _ hphase hkind)
    rw [State.readWithin_ofLevel (Nat.le_add_right _ _) hopen hstays, hopened]
    cases (State.ofLevel opened frame phase).step token with
    | error cause => rfl
    | ok next =>
      rw [Except.mapError_ok, Except.ok_bind, Except.ok_bind, bind_assoc]
      exact ih next stack hopened

/-- **The recursive reader is the machine**, both with the same limit. -/
theorem ofTokensWithin_eq (limit : Nat) {tokens : List Token} (hne : tokens ≠ []) :
    ofTokensWithin limit tokens = State.start.readWithin limit (endOffset tokens) tokens := by
  have heq := readWithin_eq (endOffset tokens) limit [] .empty .operand tokens
  rw [List.length_nil, Nat.zero_add, openedAt, List.head?_nil, Option.map_none] at heq
  rw [ofTokensWithin, State.start, heq, if_neg (by simp [hne])]
  cases readLevel (endOffset tokens) limit none .empty .operand tokens <;> rfl

end Eligibility.RuleTree
