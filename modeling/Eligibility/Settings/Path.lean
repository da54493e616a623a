import Eligibility.Settings.Value
/-!
# Paths of settings

A key at the top of a layer is a path into the settings: `engine.allowed_attributes[0]` is the first
item of a list in a section. `Setting.pathOfKey` reads a key as a path, and `Setting.put` lays a
value over what is at a path. The tables and lists on the way come about as they are needed.
-/

namespace Eligibility.Setting

/-- A step from a value to a part of it. -/
inductive Step
  /-- To the value of a key of a table. -/
  | key (name : String)
  /-- To an item of a list by its number from zero. Numbers below zero count from the end. -/
  | item (number : Int)
  deriving DecidableEq, Repr

/-- The steps to a value, the first one first. -/
abbrev Path := List Step

/-! ## Reading paths -/

/-- Whether a character may stand in a name of a path. -/
def isNameChar (c : Char) : Bool := c.isAlphanum || c == '_' || c == '-'

/-- The number of an item: what stands between its brackets, blanks around it left out. -/
def itemNumber? (cs : List Char) : Option Int := do
  let isBlank (c : Char) : Bool := c == ' ' || c == '\t'
  let (negative, rest) :=
    match cs.dropWhile isBlank with
    | '-' :: rest => (true, rest)
    | rest => (false, rest)
  let magnitude : Int ← naturalOfDigits? (rest.takeWhile Char.isDigit)
  if (rest.dropWhile Char.isDigit).all isBlank then
    checkInteger? (if negative then -magnitude else magnitude)
  else none

/-- The steps that a text writes after the first name of a path: a point and a name, or a number in
brackets, for each step. -/
def steps? : List Char → Option Path
  | [] => some []
  | c :: rest =>
    if c = '.' then
      let name := rest.takeWhile isNameChar
      if name.isEmpty then none
      else (.key (String.ofList name) :: ·) <$> steps? (rest.dropWhile isNameChar)
    else if c = '[' then
      let number := rest.takeWhile (· != ']')
      if number.length < rest.length then
        match itemNumber? number with
        | some n => (.item n :: ·) <$> steps? (rest.drop (number.length + 1))
        | none => none
      else none
    else none
termination_by cs => cs.length
decreasing_by
  · exact Nat.lt_succ_of_le (List.dropWhile_sublist _).length_le
  · simp only [List.length_drop, List.length_cons]
    omega

/-- The path that a key stands for. A key that writes none is a name as a whole. -/
def pathOfKey (key : String) : Path :=
  (steps? ('.' :: key.toList)).getD [.key key]

/-- A key of name characters alone is a path of one step. -/
theorem pathOfKey_of_isNameChar {key : String} (h : ∀ c ∈ key.toList, isNameChar c = true) :
    pathOfKey key = [.key key] := by
  have hall : key.toList.takeWhile isNameChar = key.toList := by
    simpa using @List.takeWhile_append_of_pos _ isNameChar _ [] h
  have hnil : key.toList.dropWhile isNameChar = [] := by
    simpa using @List.dropWhile_append_of_pos _ isNameChar _ [] h
  by_cases hempty : key.toList.isEmpty
  · simp [pathOfKey, steps?, hall, hempty]
  · simp [pathOfKey, steps?, hall, hnil, hempty]

/-! ## Setting values -/

/-- The items of a list. Any other value has none. -/
def items : Setting → List Setting
  | list items => items
  | _ => []

/-- The place of an item in a list, and the list made long enough to have it. The items that are
added have no value. They go to the end of the list, and to its front for a number below zero. -/
def reach (number : Int) (items : List Setting) : Nat × List Setting :=
  if 0 ≤ number then (number.toNat, items.rightpad (number.toNat + 1) null)
  else (items.length - (-number).toNat, items.leftpad (-number).toNat null)

/-- What was there before, with a value laid over the part at a path. A value that a step cannot
start from gives way to a table or a list. -/
def put (value : Setting) : Path → Option Setting → Setting
  | [], base => overlay base value
  | .key name :: path, base =>
    let members := (base.map Setting.members).getD []
    table (insert name (put value path (lookup name members)) members)
  | .item number :: path, base =>
    let (place, items) := reach number ((base.map Setting.items).getD [])
    list (items.set place (put value path items[place]?))

end Eligibility.Setting
