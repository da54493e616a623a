import Eligibility.Settings.Basic
import Eligibility.Settings.File
import Eligibility.Settings.Path
/-!
# Layers of settings

Settings come in layers, each laid over those before it: the name of the service and of the
environment, the files `default.toml`, the one named for the environment and the one named for the
service, and at last the environment variables whose names start with `RULES__`. A layer changes
what it sets and nothing else: `Setting.put` lays each of its values over what is at the path of the
key.
-/

namespace Eligibility.Settings

/-! ## Laying layers over each other -/

/-- Settings with a layer laid over them. The keys of the layer are paths. A layer is a map, whose
entries may come in any order; here they come as their file has them. The order tells only if two of
them set the same thing, such as a section and a path into it. -/
def addLayer (base : Setting) (layer : List (String × Setting)) : Setting :=
  layer.foldl (fun base entry =>
    Setting.put entry.2 (Setting.pathOfKey entry.1) (some base)) base

/-! ## Environment variables -/

/-- A variable name with a point for each pair of underscores. -/
def dotted : List Char → List Char
  | '_' :: '_' :: rest => '.' :: dotted rest
  | c :: rest => c :: dotted rest
  | [] => []

/-- What the names of the variables of the program start with. -/
def variableStart : List Char := "rules__".toList

/-- The key that a variable sets, in any letter case. -/
def keyOfVariable? (name : String) : Option String :=
  let lower := (Setting.lowerCase name).toList
  if variableStart.isPrefixOf lower then
    some (String.ofList (dotted (lower.drop variableStart.length)))
  else none

/-- The integer of 64 bits that a text is. -/
def integerOfText? (text : String) : Option Int := do
  let (negative, digits) := Binary64.readSign text.toList
  let magnitude : Int ← Setting.naturalOfDigits? digits
  Setting.checkInteger? (if negative then -magnitude else magnitude)

/-- The key whose variable holds a list. -/
def listKey : String := "engine.allowed_attributes"

/-- The value of a variable: a truth value, an integer, a number, the items between the commas of a
list, or else the text itself. -/
def valueOfVariable (key value : String) : Setting :=
  let lower := Setting.lowerCase value
  if lower = "true" then .bool true
  else if lower = "false" then .bool false
  else
    match integerOfText? value with
    | some n => .integer n
    | none =>
      match Binary64.read? value.toList with
      | some x => .real x
      | none => if key = listKey then .list ((value.splitOn ",").map .text) else .text value

/-- The layer of some environment variables. -/
def variableLayer (vars : Variables) : List (String × Setting) :=
  vars.filterMap fun entry =>
    (keyOfVariable? entry.1).map fun key => (key, valueOfVariable key entry.2)

/-! ## Loading -/

/-- The environment that the variables name. -/
def environmentOf (vars : Variables) : String :=
  (vars.get? "RULES_ENV").getD "development"

/-- The layers of the settings of a service, the first one at the bottom. -/
def layers? (service : String) (vars : Variables)
    (file : String → Option String) : Option (List (List (String × Setting))) := do
  let environment := environmentOf vars
  let files ← ["default", environment, service].mapM (fileLayer? file)
  let names := [("service_name", Setting.text service), ("environment", Setting.text environment)]
  return names :: files ++ [variableLayer vars]

/-- The settings of a service. Files are looked up by their names in the directory of the
configuration. -/
def load? (service : String) (vars : Variables)
    (file : String → Option String) : Option Settings := do
  let layers ← layers? service vars file
  ofMembers? (layers.foldl addLayer (.table [])).members

end Eligibility.Settings
