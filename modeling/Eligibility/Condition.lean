import Eligibility.Token.Scan
/-!
# Conditions

A condition compares the fact of one field with a literal, as in `age > 30`. The checked
constructors `Literal.bare?`, `Literal.quoted?` and `Condition.of?` refuse what could not be
written down and read again; `Condition.read` reads the written form.
-/

namespace Eligibility

/-! ## Literals -/

/-- A literal is a bare word or a string in single quotes. It is a text either way; a comparator
decides whether it is taken as a number. -/
inductive Literal
  | bare (text : String)
  | quoted (text : String)
  deriving DecidableEq, Repr

namespace Literal

/-- The text of a literal, without quotes. -/
def text : Literal → String
  | bare text => text
  | quoted text => text

/-- Whether a literal is written in quotes. -/
def isQuoted : Literal → Bool
  | bare _ => false
  | quoted _ => true

/-- The token that writes a literal. -/
def kind : Literal → Token.Kind
  | bare text => .word text
  | quoted text => .quoted text

/-- The written form of a literal. -/
def display (literal : Literal) : String :=
  literal.kind.display

/-- Whether a literal can be written down: a bare one is a word, a quoted one holds no quote. -/
def isWritable : Literal → Bool
  | bare text => isWord text
  | quoted text => text.toList.all Token.isQuotedChar

/-- A bare literal, if the text is a word. -/
def bare? (text : String) : Except ValidationError Literal :=
  if (bare text).isWritable then .ok (bare text) else .error (.invalidLiteral text)

/-- A quoted literal, if the text holds no single quote. -/
def quoted? (text : String) : Except ValidationError Literal :=
  if (quoted text).isWritable then .ok (quoted text) else .error (.invalidLiteral text)

end Literal

/-! ## Conditions -/

/-- A comparison of the fact of a field with a literal. -/
structure Condition where
  field : String
  comparator : Comparator
  literal : Literal
  deriving DecidableEq, Repr

namespace Condition

/-- The written form of a condition. -/
def display (condition : Condition) : String :=
  condition.field ++ " " ++ condition.comparator.symbol ++ " " ++ condition.literal.display

/-- Whether a condition can be written down and read again. -/
def isWritable (condition : Condition) : Bool :=
  isWord condition.field && condition.literal.isWritable

/-- A condition on a field, if the field is a word. -/
def of? (field : String) (comparator : Comparator) (literal : Literal) :
    Except ValidationError Condition :=
  if isWord field then .ok ⟨field, comparator, literal⟩ else .error (.invalidField field)

/-! ## Reading -/

/-- The comparator that a token after a field is. -/
def comparatorOf (field : String) (token : Token) : Except ParseError Comparator :=
  match token.kind with
  | .comparator comparator => .ok comparator
  | _ => .error (.incompleteCondition field .comparator token.offset)

/-- The literal that a token after a comparator is. -/
def literalOf (field : String) (token : Token) : Except ParseError Literal :=
  match token.kind with
  | .word text => .ok (.bare text)
  | .quoted text => .ok (.quoted text)
  | _ => .error (.incompleteCondition field .literal token.offset)

/-- The condition that a token list is: a word, a comparator, a literal, and nothing more. A part
that is missing at the end is reported at the end of the last token. -/
def ofTokens : List Token → Except ParseError Condition
  | [] => .error .empty
  | first :: rest =>
    match first.kind with
    | .word field =>
      match rest with
      | [] => .error (.incompleteCondition field .comparator first.endOffset)
      | second :: rest => do
        let comparator ← comparatorOf field second
        match rest with
        | [] => .error (.incompleteCondition field .literal second.endOffset)
        | third :: rest =>
          let literal ← literalOf field third
          match rest with
          | [] => .ok ⟨field, comparator, literal⟩
          | extra :: _ => .error extra.unexpected
    | _ => .error first.unexpected

/-- The condition that a text writes. -/
def read (text : String) : Except ParseError Condition :=
  Token.scan text >>= ofTokens

end Condition

end Eligibility
