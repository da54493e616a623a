import Eligibility.RuleTree.Basic
/-!
# From tokens to rules

`RuleTree.ofTokens` reads a rule from its tokens and `RuleTree.compile` from its text. `AND` binds
tighter than `OR`, and both group to the left.

The reader is a machine that takes one token at a time (`State.step`). A `Frame` holds the rules
read so far at one level of parentheses and the connectives that still wait for their right side;
an opening parenthesis suspends the current frame and starts a new one, and its partner resumes
it with the finished group. The `Phase` says what may come next.
-/

namespace Eligibility.RuleTree

/-! ## Frames -/

/-- A connective that waits for its right side, and its byte offset. -/
structure Pending where
  connective : Connective
  offset : Nat
  deriving DecidableEq, Repr

/-- One level of parentheses in progress: the rules read and the waiting connectives, both with the
latest first. -/
structure Frame where
  trees : List RuleTree
  waiting : List Pending
  deriving DecidableEq, Repr

namespace Frame

/-- The frame in which nothing has been read. -/
def empty : Frame := ⟨[], []⟩

/-- The frame with one more rule. -/
def push (frame : Frame) (tree : RuleTree) : Frame :=
  { frame with trees := tree :: frame.trees }

/-- The rules after a waiting connective has joined the latest two of them. -/
def joinLatest (trees : List RuleTree) (pending : Pending) : Except ParseError (List RuleTree) :=
  match trees with
  | right :: left :: rest => .ok (.join pending.connective left right :: rest)
  | _ => .error (.missingOperand pending.offset)

/-- The frame after every latest waiting connective that binds at least as tightly as `strength`
has joined its sides. -/
def settle (strength : Nat) (trees : List RuleTree) : List Pending → Except ParseError Frame
  | [] => .ok ⟨trees, []⟩
  | pending :: waiting =>
    if pending.connective.precedence < strength then .ok ⟨trees, pending :: waiting⟩
    else do settle strength (← joinLatest trees pending) waiting

/-- The frame after a connective: what binds at least as tightly is settled first, so that equal
connectives group to the left. -/
def await (frame : Frame) (pending : Pending) : Except ParseError Frame := do
  let settled ← settle pending.connective.precedence frame.trees frame.waiting
  return { settled with waiting := pending :: settled.waiting }

/-- The one rule that a frame amounts to. -/
def finish (frame : Frame) : Except ParseError RuleTree := do
  let settled ← settle 0 frame.trees frame.waiting
  match settled.trees with
  | root :: _ => return root
  | [] => throw .empty

end Frame

/-! ## The machine -/

/-- What may come next. -/
inductive Phase
  /-- A condition or a group. -/
  | operand
  /-- The comparator of a condition on this field. -/
  | comparator (field : String)
  /-- The literal of a condition. -/
  | literal (field : String) (comparator : Comparator)
  /-- A connective, or the end of the level. -/
  | connective
  deriving DecidableEq, Repr

/-- A frame that waits for the group opened at a byte offset. -/
structure Suspended where
  frame : Frame
  openOffset : Nat
  deriving DecidableEq, Repr

/-- The state of the reader. The innermost suspended frame comes first. -/
structure State where
  suspended : List Suspended
  frame : Frame
  phase : Phase
  deriving DecidableEq, Repr

namespace State

/-- The state before the first token. -/
def start : State := ⟨[], .empty, .operand⟩

/-- The state after a complete operand. -/
def accept (state : State) (tree : RuleTree) : State :=
  { state with frame := state.frame.push tree, phase := .connective }

/-- The token of a state in which an operand may come. -/
def stepOperand (state : State) (token : Token) : Except ParseError State :=
  match token.kind with
  | .openParen => .ok ⟨⟨state.frame, token.offset⟩ :: state.suspended, .empty, .operand⟩
  | .closeParen =>
    match state.suspended with
    | [] => .error (.unmatchedCloseParen token.offset)
    | _ :: _ => .error (.missingOperand token.offset)
  | .connective _ => .error (.missingOperand token.offset)
  | .word field => .ok { state with phase := .comparator field }
  | .comparator _ | .quoted _ => .error token.unexpected

/-- The token of a state in which an operand is complete. -/
def stepConnective (state : State) (token : Token) : Except ParseError State :=
  match token.kind with
  | .closeParen =>
    match state.suspended with
    | [] => .error (.unmatchedCloseParen token.offset)
    | outer :: suspended => do
      let group ← state.frame.finish
      return accept ⟨suspended, outer.frame, state.phase⟩ group
  | .connective connective => do
    let frame ← state.frame.await ⟨connective, token.offset⟩
    return { state with frame, phase := .operand }
  | .openParen | .word _ | .comparator _ | .quoted _ => .error token.unexpected

/-- The state after one more token. -/
def step (state : State) (token : Token) : Except ParseError State :=
  match state.phase with
  | .operand => state.stepOperand token
  | .comparator field => do
    let comparator ← Condition.comparatorOf field token
    return { state with phase := .literal field comparator }
  | .literal field comparator => do
    let literal ← Condition.literalOf field token
    return state.accept (.condition ⟨field, comparator, literal⟩)
  | .connective => state.stepConnective token

/-- The state after some more tokens. -/
def run (state : State) (tokens : List Token) : Except ParseError State :=
  tokens.foldlM step state

/-- The rule at the end of the input, which lies at a byte offset. A condition that stops short is
reported first, then the innermost open group, then a missing operand. -/
def finish (state : State) (endOffset : Nat) : Except ParseError RuleTree :=
  match state.phase with
  | .comparator field => .error (.incompleteCondition field .comparator endOffset)
  | .literal field _ => .error (.incompleteCondition field .literal endOffset)
  | .operand | .connective =>
    match state.suspended with
    | innermost :: _ => .error (.unclosedParen innermost.openOffset)
    | [] =>
      if state.phase = .operand then .error (.missingOperand endOffset) else state.frame.finish

end State

/-! ## Reading rules -/

/-- The byte offset at which a token list ends. -/
def endOffset (tokens : List Token) : Nat :=
  match tokens.getLast? with
  | some token => token.endOffset
  | none => 0

/-- The rule that a token list writes. -/
def ofTokens (tokens : List Token) : Except ParseError RuleTree :=
  if tokens.isEmpty then .error .empty
  else do (← State.start.run tokens).finish (endOffset tokens)

/-- The rule that a text writes. -/
def compile (text : String) : Except ParseError RuleTree :=
  Token.scan text >>= ofTokens

end Eligibility.RuleTree
