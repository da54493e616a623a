import Eligibility.Json.Lexeme
/-!
# Reading JSON

`Json.read?` reads a JSON text by RFC 8259: one value, nothing but spaces around it, and containers
nested no deeper than a limit. The reader is a machine that takes one lexeme at a time; its stack
holds the containers that are open, so that the limit bounds the stack.
-/

namespace Eligibility.Json

/-- A container in progress, with what it holds so far (the latest first). The constructor says what
may come next. -/
inductive Container
  /-- An array just opened: an item or its end. -/
  | arrayStart
  /-- An array after a comma: an item. -/
  | arrayItem (items : List Json)
  /-- An array after an item: a comma or its end. -/
  | arrayNext (items : List Json)
  /-- An object just opened: a name or its end. -/
  | objectStart
  /-- An object after a comma: a name. -/
  | objectName (members : List (String × Json))
  /-- An object after a name: a colon. -/
  | objectColon (members : List (String × Json)) (name : String)
  /-- An object after a colon: the value of the name. -/
  | objectValue (members : List (String × Json)) (name : String)
  /-- An object after a member: a comma or its end. -/
  | objectNext (members : List (String × Json))
  deriving Repr

/-- The reader within a text: containers still open (the innermost first), or a complete value. -/
inductive Progress
  | within (stack : List Container)
  | complete (value : Json)
  deriving Repr

namespace Progress

/-- A value at a place where one may stand. -/
def deliver (value : Json) : List Container → Option Progress
  | [] => some (.complete value)
  | .arrayStart :: stack => some (.within (.arrayNext [value] :: stack))
  | .arrayItem items :: stack => some (.within (.arrayNext (value :: items) :: stack))
  | .objectValue members name :: stack =>
    some (.within (.objectNext ((name, value) :: members) :: stack))
  | _ => none

/-- Whether a value may come next. -/
def valueExpected : List Container → Bool
  | [] | .arrayStart :: _ | .arrayItem _ :: _ | .objectValue .. :: _ => true
  | _ => false

/-- A new container at a place where a value may stand, if the limit of nesting allows it. -/
def enter (limit : Nat) (container : Container) (stack : List Container) : Option Progress :=
  if valueExpected stack && stack.length < limit then some (.within (container :: stack)) else none

/-- The progress after one more lexeme. -/
def step (limit : Nat) : Progress → Lexeme → Option Progress
  | .complete _, _ => none
  | .within stack, lexeme =>
    match lexeme with
    | .literal value => deliver value stack
    | .openBracket => enter limit .arrayStart stack
    | .openBrace => enter limit .objectStart stack
    | .string text =>
      match stack with
      | .objectStart :: stack => some (.within (.objectColon [] text :: stack))
      | .objectName members :: stack => some (.within (.objectColon members text :: stack))
      | stack => deliver (.string text) stack
    | .colon =>
      match stack with
      | .objectColon members name :: stack => some (.within (.objectValue members name :: stack))
      | _ => none
    | .comma =>
      match stack with
      | .arrayNext items :: stack => some (.within (.arrayItem items :: stack))
      | .objectNext members :: stack => some (.within (.objectName members :: stack))
      | _ => none
    | .closeBracket =>
      match stack with
      | .arrayStart :: stack => deliver (.array []) stack
      | .arrayNext items :: stack => deliver (.array items.reverse) stack
      | _ => none
    | .closeBrace =>
      match stack with
      | .objectStart :: stack => deliver (.object []) stack
      | .objectNext members :: stack => deliver (.object members.reverse) stack
      | _ => none

/-- The progress after some more lexemes. -/
def run (limit : Nat) (progress : Progress) (lexemes : List Lexeme) : Option Progress :=
  lexemes.foldlM (step limit) progress

/-- The value of a complete text. -/
def finish? : Progress → Option Json
  | .complete value => some value
  | .within _ => none

end Progress

/-- The number of containers that may be open at once in a text from outside. -/
def nestingLimit : Nat := 127

/-- The value that a text writes, with at most `limit` containers open at once. -/
def readWithin? (limit : Nat) (text : String) : Option Json := do
  let lexemes ← lexemes? text.toList
  let progress ← Progress.run limit (.within []) lexemes
  progress.finish?

/-- The value that a text from outside writes. -/
def read? (text : String) : Option Json :=
  readWithin? nestingLimit text

end Eligibility.Json
