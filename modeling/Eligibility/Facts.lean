import Eligibility.Binary64.Display
import Eligibility.Error
import Eligibility.Json.Reader
import Eligibility.Text.Blank
/-!
# Facts

A fact is a number or a text, and a record holds at most one fact for each field. Records are read
from JSON objects whose members are numbers and strings.
-/

namespace Eligibility

/-! ## Single facts -/

/-- What is known of one field. -/
inductive Fact
  | number (value : Binary64)
  | text (value : String)
  deriving DecidableEq, Repr

/-- The number that a text is, blanks around it aside. It must be finite. -/
def numberOfText? (text : String) : Option Binary64 :=
  Binary64.readFinite? (Text.trim text.toList)

namespace Fact

/-- A fact as a number, if it is a finite one or the text of one. -/
def asNumber? : Fact → Option Binary64
  | number value => some value |>.filter Binary64.isFinite
  | text value => numberOfText? value

/-- A fact as a text. -/
def display : Fact → String
  | number value => value.display
  | text value => value

/-- The fact that a JSON value is: a number or a string. -/
def ofJson? : Json → Option Fact
  | .number value => some (number value.toBinary64)
  | .string value => some (text value)
  | _ => none

end Fact

/-! ## Records -/

/-- The facts of some fields, each field once. -/
structure Facts where
  entries : List (String × Fact)
  deriving Repr

namespace Facts

/-- The record of no field. -/
def empty : Facts := ⟨[]⟩

/-- The fact of a field. -/
def get? (facts : Facts) (field : String) : Option Fact :=
  (facts.entries.find? fun entry => entry.1 == field).map Prod.snd

/-- The record with the fact of one field set. -/
def insert (facts : Facts) (field : String) (fact : Fact) : Facts :=
  ⟨(facts.entries.filter fun entry => entry.1 != field) ++ [(field, fact)]⟩

/-- The number of fields. -/
def size (facts : Facts) : Nat := facts.entries.length

/-- The record of the members of an object. Each of them must be a fact, and of two members with the
same name the later one counts. -/
def ofMembers (members : List (String × Json)) : Except Failure Facts :=
  members.foldlM (fun facts member =>
    match Fact.ofJson? member.2 with
    | some fact => .ok (facts.insert member.1 fact)
    | none => .error .invalidJson) empty

/-- The members that no later member of the same name hides. -/
def lastMembers : List (String × Json) → List (String × Json)
  | [] => []
  | member :: rest =>
    if rest.any fun later => later.1 == member.1 then lastMembers rest
    else member :: lastMembers rest

/-- The record that a JSON value is. Hidden members are not looked at. -/
def ofJson : Json → Except Failure Facts
  | .object members => ofMembers (lastMembers members)
  | _ => .error .invalidJson

/-- The record that a JSON text writes. Hidden members must be facts too. -/
def read (text : String) : Except Failure Facts :=
  match Json.read? text with
  | some (.object members) => ofMembers members
  | _ => .error .invalidJson

end Facts

end Eligibility
