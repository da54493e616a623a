import Eligibility.Text.Mark
import Eligibility.Toml.Quoted
import Eligibility.Toml.Scalar
import Eligibility.Toml.Table
/-!
# Documents of TOML

`Toml.read?` reads a TOML document as a table of settings. A document is a list of statements, one a
line: a key with its value, the header of a table, or the header of an item of a table array.

Values nest, so their readers take a bound on the number of steps; the length of the document is
enough, as every step takes at least one character. They also take the number of containers that may
still be opened. A value has at most `depthLimit` containers open at once, and a key has no more
parts than that.
-/

namespace Eligibility.Toml

/-- The number of containers that may be open at once in a value, and of the parts that a key may
have. -/
def depthLimit : Nat := 80

/-! ## Gaps -/

/-- The text after the gaps in front. -/
def skipGaps (cs : List Char) : List Char := cs.dropWhile isGap

/-- The text after the gaps, line ends and comments in front. -/
def skipLines : List Char → List Char
  | [] => []
  | '\r' :: '\n' :: rest => skipLines rest
  | c :: rest =>
    if isGap c || c == '\n' then skipLines rest
    else if c = '#' then skipLines (rest.dropWhile isLineChar)
    else c :: rest
termination_by cs => cs.length
decreasing_by
  · simp only [List.length_cons]
    omega
  · exact Nat.lt_succ_self _
  · exact Nat.lt_succ_of_le (List.dropWhile_sublist _).length_le

/-- The text after the end of a statement: gaps, a comment, and the end of the line. -/
def endStatement? (cs : List Char) : Option (List Char) :=
  let rest :=
    match skipGaps cs with
    | '#' :: rest => rest.dropWhile isLineChar
    | rest => rest
  if rest.isEmpty then some [] else lineEnd? rest

/-! ## Keys -/

/-- Whether a character may stand in a key without quotes. -/
def isKeyChar (c : Char) : Bool := c.isAlphanum || c == '_' || c == '-'

/-- A key without dots, and the rest. -/
def simpleKey? (cs : List Char) : Option (String × List Char) :=
  match cs.takeWhile isKeyChar with
  | [] => lineString? cs
  | key => some (String.ofList key, cs.dropWhile isKeyChar)

/-- A key of at most so many parts: those before the last one, the last one, and the rest. -/
def keyWithin? : Nat → List Char → Option (List String × String × List Char)
  | 0, _ => none
  | parts + 1, cs => do
    let (part, rest) ← simpleKey? cs
    match skipGaps rest with
    | '.' :: rest =>
      let (parents, last, rest) ← keyWithin? parts (skipGaps rest)
      return (part :: parents, last, rest)
    | rest => return ([], part, rest)

/-- A key at the front of a text, which may be dotted. -/
def key? (cs : List Char) : Option (List String × String × List Char) :=
  keyWithin? depthLimit cs

/-! ## Values -/

/-- Whether a character may stand in a value without quotes. -/
def isScalarChar (c : Char) : Bool :=
  c.isAlphanum || c == '_' || c == '-' || c == '+' || c == '.' || c == ':'

/-- A value without quotes, and the rest. A blank may stand between a date and a time. -/
def word? (cs : List Char) : Option (Setting × List Char) :=
  let word := cs.takeWhile isScalarChar
  let rest := cs.dropWhile isScalarChar
  let joined :=
    match rest with
    | ' ' :: a :: b :: ':' :: _ =>
      if a.isDigit && b.isDigit && date? word == some [] then
        let time := rest.drop 1
        (word ++ ' ' :: time.takeWhile isScalarChar, time.dropWhile isScalarChar)
      else (word, rest)
    | _ => (word, rest)
  (scalar? joined.1).map fun value => (value, joined.2)

mutual

/-- A value at the front of a text, with at most `room` containers open at once, and the rest. -/
def value? : Nat → Nat → List Char → Option (Setting × List Char)
  | 0, _, _ => none
  | steps + 1, room, cs =>
    match cs with
    | '[' :: rest => if room = 0 then none else items? steps (room - 1) [] (skipLines rest)
    | '\x7b' :: rest => if room = 0 then none else pairs? steps (room - 1) [] (skipLines rest)
    | '"' :: _ | '\'' :: _ => (string? cs).map fun (text, rest) => (.text text, rest)
    | _ => word? cs

/-- The rest of an array, after the items read so far (the latest first). -/
def items? : Nat → Nat → List Setting → List Char → Option (Setting × List Char)
  | 0, _, _, _ => none
  | steps + 1, room, read, cs =>
    match cs with
    | ']' :: rest => some (.list read.reverse, rest)
    | _ => do
      let (value, rest) ← value? steps room cs
      match skipLines rest with
      | ',' :: rest => items? steps room (value :: read) (skipLines rest)
      | ']' :: rest => return (.list (value :: read).reverse, rest)
      | _ => none

/-- The rest of an inline table, after the members defined so far. -/
def pairs? : Nat → Nat → List (String × Node) → List Char → Option (Setting × List Char)
  | 0, _, _, _ => none
  | steps + 1, room, members, cs =>
    match cs with
    | '\x7d' :: rest => some (.table (Node.toMembers members), rest)
    | _ => do
      let (parents, key, rest) ← key? cs
      let rest ← after? '=' (skipLines rest)
      let (value, rest) ← value? steps room (skipLines rest)
      let members ← Node.assign key value parents members
      match skipLines rest with
      | ',' :: rest => pairs? steps room members (skipLines rest)
      | '\x7d' :: rest => return (.table (Node.toMembers members), rest)
      | _ => none

end

/-! ## Statements -/

/-- What a line defines. -/
inductive Statement
  | assign (parents : List String) (key : String) (value : Setting)
  | table (parents : List String) (key : String)
  | item (parents : List String) (key : String)

/-- A statement at the front of a text, and the rest. -/
def statement? (steps : Nat) (cs : List Char) : Option (Statement × List Char) :=
  match cs with
  | '[' :: '[' :: rest => do
    let (parents, key, rest) ← key? (skipGaps rest)
    match rest with
    | ']' :: ']' :: rest => return (.item parents key, rest)
    | _ => none
  | '[' :: rest => do
    let (parents, key, rest) ← key? (skipGaps rest)
    match rest with
    | ']' :: rest => return (.table parents key, rest)
    | _ => none
  | _ => do
    let (parents, key, rest) ← key? cs
    let rest ← after? '=' rest
    let (value, rest) ← value? steps depthLimit (skipGaps rest)
    return (.assign parents key value, rest)

/-- The statements of a text. -/
def statements? : Nat → List Char → Option (List Statement)
  | 0, _ => none
  | steps + 1, cs =>
    match skipLines cs with
    | [] => some []
    | cs => do
      let (statement, rest) ← statement? steps cs
      let rest ← endStatement? rest
      return statement :: (← statements? steps rest)

/-! ## Documents -/

/-- A document in progress: its members, and the path of the table that keys go to. -/
structure Document where
  members : List (String × Node)
  current : List String

/-- The document after one more statement. -/
def Document.define (document : Document) : Statement → Option Document
  | .assign parents key value => do
    let members ←
      Node.change (Node.assign key value parents) document.current document.members
    return { document with members }
  | .table parents key => do
    let members ← Node.change (Node.openTable key) parents document.members
    return ⟨members, parents ++ [key]⟩
  | .item parents key => do
    let members ← Node.change (Node.openItem key) parents document.members
    return ⟨members, parents ++ [key]⟩

/-- The table that a document is. A byte order mark in front of it is passed over. -/
def read? (text : String) : Option (List (String × Setting)) := do
  let cs := Text.dropMark text.toList
  let statements ← statements? (cs.length + 2) cs
  let document ← statements.foldlM Document.define ⟨[], []⟩
  return Node.toMembers document.members

end Eligibility.Toml
