import Eligibility.Binary64.Basic
/-!
# JSON values

A JSON value keeps what its text says: an object is the list of its members in the order of the
text, repeated names included. `Json.member?` looks a name up, where the last member of that name
counts.
-/

namespace Eligibility

/-- A JSON number: an integer of at most 64 bits, or else the nearest double. -/
inductive Json.Number
  | integer (value : Int)
  | real (value : Binary64)
  deriving DecidableEq, Repr

/-- A JSON value. -/
inductive Json
  | null
  | bool (value : Bool)
  | number (value : Json.Number)
  | string (value : String)
  | array (items : List Json)
  | object (members : List (String × Json))
  deriving Repr

namespace Json

/-- A number as a double. -/
def Number.toBinary64 : Number → Binary64
  | integer value => Binary64.ofInt value
  | real value => value

/-- The name of the kind of a value. -/
def kindName : Json → String
  | null => "null"
  | bool _ => "boolean"
  | number _ => "number"
  | string _ => "string"
  | array _ => "array"
  | object _ => "object"

/-- The value of the last member with a name. -/
def lookup (name : String) (members : List (String × Json)) : Option Json :=
  (members.reverse.find? fun member => member.1 == name).map Prod.snd

/-- The value of a name in an object. -/
def member? (name : String) : Json → Option Json
  | object members => lookup name members
  | _ => none

/-- The text of a string value. -/
def asString? : Json → Option String
  | string value => some value
  | _ => none

/-- Whether a value is `null`. -/
def isNull : Json → Bool
  | null => true
  | _ => false

end Json

end Eligibility
