import Eligibility.Binary64.Display
import Eligibility.Json.Basic
/-!
# Writing JSON

`Json.render` writes a value without spaces, the members of an object in their order. In strings
only the quote, the backslash and the characters below `U+0020` are escaped, by a letter where there
is one and by four lower-case hexadecimal digits where there is none.
-/

namespace Eligibility.Json

/-- The lower-case hexadecimal digit of a number below sixteen. -/
def hexDigit (n : Nat) : Char := Nat.digitChar n

/-- A character within a string. -/
def escapeChar (c : Char) : List Char :=
  if c = '"' then ['\\', '"']
  else if c = '\\' then ['\\', '\\']
  else if c = '\x08' then ['\\', 'b']
  else if c = '\t' then ['\\', 't']
  else if c = '\n' then ['\\', 'n']
  else if c = '\x0c' then ['\\', 'f']
  else if c = '\r' then ['\\', 'r']
  else if c < ' ' then ['\\', 'u', '0', '0', hexDigit (c.toNat / 16), hexDigit (c.toNat % 16)]
  else [c]

/-- A string in quotes. -/
def quote (text : String) : String :=
  String.ofList ('"' :: text.toList.flatMap escapeChar ++ ['"'])

/-- A number; one that is not finite has no JSON form and is `null`. -/
def Number.render : Number → String
  | integer value => toString value
  | real value => if value.isFinite then value.display else "null"

mutual

/-- The text of a value. -/
def render : Json → String
  | null => "null"
  | bool true => "true"
  | bool false => "false"
  | number value => value.render
  | string value => quote value
  | array items => "[" ++ renderItems items ++ "]"
  | object members => "\x7b" ++ renderMembers members ++ "\x7d"

/-- The items of an array, with commas between them. -/
def renderItems : List Json → String
  | [] => ""
  | [item] => item.render
  | item :: rest => item.render ++ "," ++ renderItems rest

/-- The members of an object, with commas between them. -/
def renderMembers : List (String × Json) → String
  | [] => ""
  | [(name, value)] => quote name ++ ":" ++ value.render
  | (name, value) :: rest => quote name ++ ":" ++ value.render ++ "," ++ renderMembers rest

end

end Eligibility.Json
