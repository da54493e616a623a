import Eligibility.Operator
/-!
# Tokens

A rule text is a sequence of tokens: parentheses, connectives, comparators, words and quoted
strings. A `Token` is one of these with its byte offset in the text. `isWord` says which strings
stand as a single word token, and `nestingDepth` how deeply parentheses nest.
-/

namespace Eligibility

/-- What a token is, without its place. -/
inductive Token.Kind
  | openParen
  | closeParen
  | connective (op : Connective)
  | comparator (op : Comparator)
  /-- A field name or an unquoted literal. -/
  | word (text : String)
  /-- A string in single quotes, held without them. -/
  | quoted (text : String)
  deriving DecidableEq, Repr

/-- A token and the byte offset at which it starts. -/
structure Token where
  kind : Token.Kind
  offset : Nat
  deriving DecidableEq, Repr

namespace Token

/-- The written form of a token. -/
def Kind.display : Kind → String
  | .openParen => "("
  | .closeParen => ")"
  | .connective op => op.keyword
  | .comparator op => op.symbol
  | .word text => text
  | .quoted text => "'" ++ text ++ "'"

/-- The byte offset just after a token. -/
def endOffset (token : Token) : Nat :=
  token.offset + token.kind.display.utf8ByteSize

/-- The token that an unquoted word is: a connective, a comparator, or else a plain word. -/
def Kind.ofWord (text : String) : Kind :=
  match Connective.ofKeyword? text with
  | some op => .connective op
  | none =>
    match Comparator.ofSymbol? text with
    | some op => .comparator op
    | none => .word text

/-! ## Nesting -/

/-- The deepest level that parentheses reach when `depth` are open and `deepest` has been reached.
A closing parenthesis with none open is passed over. -/
def nestingFrom (depth deepest : Nat) : List Token → Nat
  | [] => deepest
  | token :: rest =>
    match token.kind with
    | .openParen => nestingFrom (depth + 1) (max deepest (depth + 1)) rest
    | .closeParen => nestingFrom (depth - 1) deepest rest
    | _ => nestingFrom depth deepest rest

/-- The number of levels of parentheses, whether or not they pair up. -/
def nestingDepth (tokens : List Token) : Nat :=
  nestingFrom 0 0 tokens

end Token

end Eligibility
