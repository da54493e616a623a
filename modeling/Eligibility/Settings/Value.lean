import Eligibility.Binary64.Display
/-!
# Values of settings

What a configuration says is a tree of values. A later layer is laid over an earlier one by
`Setting.overlay`: tables are merged key by key, and everything else is replaced. The readers
`toNatural?`, `toBool?` and `toText?` take a value as the type that a setting has.
-/

namespace Eligibility

/-- A value in a configuration. -/
inductive Setting
  /-- No value, which no reader takes. -/
  | null
  | bool (value : Bool)
  | integer (value : Int)
  | real (value : Binary64)
  | text (value : String)
  | list (items : List Setting)
  | table (members : List (String × Setting))
  deriving Repr

namespace Setting

/-! ## Tables -/

/-- The members of a table. Any other value has none. -/
def members : Setting → List (String × Setting)
  | table members => members
  | _ => []

/-- The value of a key. -/
def lookup (key : String) (members : List (String × Setting)) : Option Setting :=
  (members.find? fun member => member.1 == key).map Prod.snd

/-- The members with one key set. -/
def insert (key : String) (value : Setting) : List (String × Setting) → List (String × Setting)
  | [] => [(key, value)]
  | member :: rest =>
    if member.1 = key then (key, value) :: rest else member :: insert key value rest

mutual

/-- A value laid over what was there before. -/
def overlay (base : Option Setting) : Setting → Setting
  | table members => table (overlayMembers ((base.map Setting.members).getD []) members)
  | value => value

/-- Some members laid over those of a table, one after the other. -/
def overlayMembers (base : List (String × Setting)) :
    List (String × Setting) → List (String × Setting)
  | [] => base
  | (key, value) :: rest =>
    overlayMembers (insert key (overlay (lookup key base) value) base) rest

end

/-- The fields of a section: a table of them by name, or a list of them in order. -/
def fields? (names : List String) : Setting → Option (List (String × Setting))
  | table members => some members
  | list items => some (names.zip items)
  | _ => none

/-! ## Readers -/

/-- An integer, if it has at most 64 bits as all integers of settings do. -/
def checkInteger? (n : Int) : Option Int :=
  if -0x8000000000000000 ≤ n ∧ n < 0x8000000000000000 then some n else none

/-- The largest number of a setting. -/
def largestNatural : Nat := 0xFFFFFFFFFFFFFFFF

/-- The text with its ASCII letters in lower case; no word it is compared with has others. -/
def lowerCase (text : String) : String :=
  String.ofList (text.toList.map Char.toLower)

/-- The number that decimal digits write. -/
def naturalOfDigits? (cs : List Char) : Option Nat :=
  if cs.isEmpty || !cs.all Char.isDigit then none else some (Decimal.valueOfDigits cs)

/-- The number that a text is as a setting: a word of agreement or refusal, or digits after an
optional plus sign. -/
def naturalOfText? (text : String) : Option Nat :=
  let word := lowerCase text
  if ["true", "on", "yes"].contains word then some 1
  else if ["false", "off", "no"].contains word then some 0
  else
    let digits :=
      match text.toList with
      | '+' :: rest => rest
      | cs => cs
    (naturalOfDigits? digits).filter (· ≤ largestNatural)

/-- The natural number nearest to a number, a half going up; the ends of the range stand for all
that lies beyond them. -/
def naturalOfReal (x : Binary64) : Nat :=
  if x.isNaN || x.negative then 0
  else if !x.isFinite then largestNatural
  else min largestNatural ((2 * x.units + Binary64.unitsPerOne) / (2 * Binary64.unitsPerOne))

/-- A value as a natural number. -/
def toNatural? : Setting → Option Nat
  | bool value => some value.toNat
  | integer value => if 0 ≤ value then some value.toNat else none
  | real value => some (naturalOfReal value)
  | text value => naturalOfText? value
  | null | list _ | table _ => none

/-- A value as a truth value. -/
def toBool? : Setting → Option Bool
  | bool value => some value
  | integer value => some (value != 0)
  | real value => some (value.rank != 0)
  | text value =>
    let word := lowerCase value
    if ["1", "true", "on", "yes"].contains word then some true
    else if ["0", "false", "off", "no"].contains word then some false
    else none
  | null | list _ | table _ => none

/-- A value as a text. -/
def toText? : Setting → Option String
  | bool value => some (if value then "true" else "false")
  | integer value => some (toString value)
  | real value => some value.plain
  | text value => some value
  | null | list _ | table _ => none

/-- A value as a list of texts. -/
def toTexts? : Setting → Option (List String)
  | list items => items.mapM toText?
  | _ => none

/-- The value of a key if it is there, as a reader takes it, and a default if it is not. -/
def read? {α : Type} (reader : Setting → Option α) (default : α) (key : String)
    (members : List (String × Setting)) : Option α :=
  match lookup key members with
  | some value => reader value
  | none => some default

end Setting

end Eligibility
