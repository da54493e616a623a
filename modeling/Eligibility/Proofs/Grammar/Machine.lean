import Eligibility.Proofs.Grammar.Basic
import Eligibility.Proofs.Outcome
import Eligibility.RuleTree.Parser
/-!
# What the reader can do

`State.Move` lists the six moves of the reader of rules, each with the token it takes, and
`step_eq_ok_iff` says that these are all: a step succeeds just when there is a move, and goes where
the move goes.

What the two moves that build joins come to depends on `Frame.settle`. `Frame.Settles` is its
graph; settling in two stages, the tighter connectives first, is settling at once
(`Settles.trans`).
-/

namespace Eligibility.RuleTree

namespace Frame

/-! ## Settling -/

/-- Settling at a strength turns one frame into another. -/
def Settles (strength : Nat) (frame settled : Frame) : Prop :=
  settle strength frame.trees frame.waiting = .ok settled

/-- The connectives that wait bind more loosely than a strength. The latest of them speaks for the
others, which bind more loosely than it does. -/
def LooserThan (strength : Nat) (frame : Frame) : Prop :=
  ∀ pending ∈ frame.waiting.head?, pending.connective.precedence < strength

theorem looserThan_empty (strength : Nat) : empty.LooserThan strength := by
  intro pending hp
  simp [empty] at hp

theorem LooserThan.mono {low high : Nat} {frame : Frame} (h : frame.LooserThan low)
    (hle : low ≤ high) : frame.LooserThan high :=
  fun pending hp => Nat.lt_of_lt_of_le (h pending hp) hle

/-- Nothing joins in a frame whose connectives all bind more loosely. -/
theorem LooserThan.settles {strength : Nat} {frame : Frame} (h : frame.LooserThan strength) :
    frame.Settles strength frame := by
  obtain ⟨trees, _ | ⟨pending, waiting⟩⟩ := frame
  · rfl
  · exact if_pos (h pending rfl)

/-- Settling at a higher strength first makes no difference. -/
theorem Settles.trans {low high : Nat} (hle : low ≤ high) {frame middle settled : Frame}
    (h : frame.Settles high middle) (h' : middle.Settles low settled) :
    frame.Settles low settled := by
  obtain ⟨trees, waiting⟩ := frame
  simp only [Settles] at h h' ⊢
  induction waiting generalizing trees with
  | nil =>
    obtain rfl := Except.ok.inj h
    exact h'
  | cons pending waiting ih =>
    simp only [settle] at h ⊢
    split at h
    · obtain rfl := Except.ok.inj h
      exact h'
    · rename_i hhigh
      rw [if_neg (by omega)]
      cases hj : joinLatest trees pending with
      | error cause => rw [hj] at h; simp [bind, Except.bind] at h
      | ok joined =>
        rw [hj] at h
        exact ih joined h

/-- The latest connective joins the latest two rules. -/
theorem settles_join {strength : Nat} {frame : Frame} {left right : RuleTree} {pending : Pending}
    (hp : strength ≤ pending.connective.precedence) (h : frame.LooserThan strength) :
    Settles strength ⟨right :: left :: frame.trees, pending :: frame.waiting⟩
      (frame.push (.join pending.connective left right)) := by
  have hstop : (frame.push (.join pending.connective left right)).LooserThan strength := h
  simp only [Settles, settle, if_neg (Nat.not_lt.2 hp), joinLatest]
  exact hstop.settles

/-- A connective comes after the frame has settled at its strength. -/
theorem Settles.await {frame settled : Frame} (pending : Pending)
    (h : frame.Settles pending.connective.precedence settled) :
    frame.await pending = .ok ⟨settled.trees, pending :: settled.waiting⟩ := by
  rw [Settles] at h
  rw [Frame.await, h]
  rfl

/-- The rule of a frame that settles to a single one. -/
theorem Settles.finish {strength : Nat} {frame : Frame} {tree : RuleTree}
    (h : frame.Settles strength (empty.push tree)) : frame.finish = .ok tree := by
  have h0 : frame.Settles 0 (empty.push tree) := h.trans (Nat.zero_le _) rfl
  rw [Settles] at h0
  rw [Frame.finish, h0]
  rfl

end Frame

namespace State

/-! ## Moves -/

/-- `Move state token next`: the reader takes a token in one state and is in another then. -/
inductive Move : State → Token → State → Prop
  /-- A group opens. -/
  | openParen {suspended : List Suspended} {frame : Frame} {offset : Nat} :
    Move ⟨suspended, frame, .operand⟩ ⟨.openParen, offset⟩
      ⟨⟨frame, offset⟩ :: suspended, .empty, .operand⟩
  /-- A condition starts with its field. -/
  | word {suspended : List Suspended} {frame : Frame} {field : String} {offset : Nat} :
    Move ⟨suspended, frame, .operand⟩ ⟨.word field, offset⟩ ⟨suspended, frame, .comparator field⟩
  | comparator {suspended : List Suspended} {frame : Frame} {field : String}
      {comparator : Comparator} {offset : Nat} :
    Move ⟨suspended, frame, .comparator field⟩ ⟨.comparator comparator, offset⟩
      ⟨suspended, frame, .literal field comparator⟩
  /-- A condition ends with its literal. -/
  | literal {suspended : List Suspended} {frame : Frame} {c : Condition} {offset : Nat} :
    Move ⟨suspended, frame, .literal c.field c.comparator⟩ ⟨c.literal.kind, offset⟩
      ⟨suspended, frame.push (.condition c), .connective⟩
  | connective {suspended : List Suspended} {frame awaiting : Frame} {connective : Connective}
      {offset : Nat} : frame.await ⟨connective, offset⟩ = .ok awaiting →
    Move ⟨suspended, frame, .connective⟩ ⟨.connective connective, offset⟩
      ⟨suspended, awaiting, .operand⟩
  /-- A group closes, and is an operand of the frame around it. -/
  | closeParen {outer : Suspended} {suspended : List Suspended} {frame : Frame} {tree : RuleTree}
      {offset : Nat} : frame.finish = .ok tree →
    Move ⟨outer :: suspended, frame, .connective⟩ ⟨.closeParen, offset⟩
      ⟨suspended, outer.frame.push tree, .connective⟩

theorem Move.step_eq {state next : State} {token : Token} (h : Move state token next) :
    state.step token = .ok next := by
  cases h with
  | openParen | word => rfl
  | comparator => exact Except.bind_eq_ok_iff.2 ⟨_, Condition.comparatorOf_eq_ok_iff.2 rfl, rfl⟩
  | literal => exact Except.bind_eq_ok_iff.2 ⟨_, Condition.literalOf_eq_ok_iff.2 rfl, rfl⟩
  | connective h => exact Except.bind_eq_ok_iff.2 ⟨_, h, rfl⟩
  | closeParen h => exact Except.bind_eq_ok_iff.2 ⟨_, h, rfl⟩

theorem move_of_step {state next : State} {token : Token} (h : state.step token = .ok next) :
    Move state token next := by
  obtain ⟨suspended, frame, phase⟩ := state
  obtain ⟨kind, offset⟩ := token
  cases phase with
  | operand =>
    cases kind with
    | openParen => obtain rfl := Except.ok.inj h; exact .openParen
    | word field => obtain rfl := Except.ok.inj h; exact .word
    | closeParen => cases suspended <;> simp [step, stepOperand] at h
    | connective _ | comparator _ | quoted _ => simp [step, stepOperand] at h
  | comparator field =>
    obtain ⟨comparator, hc, rfl⟩ := by simpa [step] using h
    obtain rfl := Condition.comparatorOf_eq_ok_iff.1 hc
    exact .comparator
  | literal field comparator =>
    obtain ⟨literal, hl, rfl⟩ := by simpa [step] using h
    obtain rfl := Condition.literalOf_eq_ok_iff.1 hl
    exact .literal (c := ⟨field, comparator, literal⟩)
  | connective =>
    cases kind with
    | connective connective =>
      obtain ⟨awaiting, ha, rfl⟩ := by simpa [step, stepConnective] using h
      exact .connective ha
    | closeParen =>
      cases suspended with
      | nil => simp [step, stepConnective] at h
      | cons outer suspended =>
        obtain ⟨tree, ht, rfl⟩ := by simpa [step, stepConnective] using h
        exact .closeParen ht
    | openParen | word _ | comparator _ | quoted _ => simp [step, stepConnective] at h

/-- **The moves are all that the reader can do.** -/
theorem step_eq_ok_iff {state next : State} {token : Token} :
    state.step token = .ok next ↔ Move state token next :=
  ⟨move_of_step, Move.step_eq⟩

/-! ## Runs -/

theorem run_cons {state next : State} {token : Token} (h : Move state token next)
    (tokens : List Token) : state.run (token :: tokens) = next.run tokens := by
  rw [run, List.foldlM_cons, step_eq_ok_iff.2 h]
  rfl

theorem run_append {state next : State} {tokens : List Token} (h : state.run tokens = .ok next)
    (tokens' : List Token) : state.run (tokens ++ tokens') = next.run tokens' := by
  rw [run] at h
  rw [run, List.foldlM_append, h]
  rfl

theorem run_append_error {state : State} {tokens : List Token} {cause : ParseError}
    (h : state.run tokens = .error cause) (tokens' : List Token) :
    state.run (tokens ++ tokens') = .error cause := by
  rw [run] at h
  rw [run, List.foldlM_append, h]
  rfl

/-- A run that fails does so at one of its tokens. -/
theorem exists_step_of_run_error {state : State} {tokens : List Token} {cause : ParseError}
    (h : state.run tokens = .error cause) :
    ∃ before token after middle, tokens = before ++ token :: after ∧
      state.run before = .ok middle ∧ middle.step token = .error cause := by
  induction tokens generalizing state with
  | nil => simp [run] at h
  | cons first tokens ih =>
    rw [run, List.foldlM_cons] at h
    obtain hfirst | ⟨next, hfirst, hrest⟩ := Except.bind_eq_error_iff.1 h
    · exact ⟨[], first, tokens, state, rfl, rfl, hfirst⟩
    · obtain ⟨before, token, after, middle, rfl, hbefore, hstep⟩ := ih hrest
      refine ⟨first :: before, token, after, middle, rfl, ?_, hstep⟩
      rw [run_cons (step_eq_ok_iff.1 hfirst), hbefore]

/-- What holds at the start and is kept by every move holds after a run. The property may speak of
the kinds of the tokens taken so far. -/
theorem run_induction {motive : State → List Token.Kind → Prop}
    (hmove : ∀ {state token next kinds}, Move state token next → motive state kinds →
      motive next (kinds ++ [token.kind]))
    {state next : State} {kinds : List Token.Kind} {tokens : List Token}
    (h : state.run tokens = .ok next) (hstart : motive state kinds) :
    motive next (kinds ++ tokens.map Token.kind) := by
  induction tokens generalizing state kinds with
  | nil =>
    obtain rfl := Except.ok.inj h
    simpa using hstart
  | cons token tokens ih =>
    obtain ⟨middle, hstep, hrun⟩ := Except.bind_eq_ok_iff.1 (List.foldlM_cons.symm.trans h)
    simpa using ih hrun (hmove (step_eq_ok_iff.1 hstep) hstart)

end State

end Eligibility.RuleTree
