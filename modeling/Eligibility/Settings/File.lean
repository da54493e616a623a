import Eligibility.Json.Reader
import Eligibility.Text.Mark
import Eligibility.Toml.Document
/-!
# Files of settings

A file of settings is a table in TOML or in JSON. `Settings.filesOf` names the files that may hold
the settings of a name, and `FileFormat.read?` reads the content of one. Settings are loaded as if
there were no files in other formats.
-/

namespace Eligibility

namespace Setting

mutual

/-- The value that a JSON value is as a setting. An integer beyond 64 bits becomes a floating point
number. -/
def ofJson : Json → Setting
  | .null => null
  | .bool value => bool value
  | .number (.integer value) =>
    match checkInteger? value with
    | some value => integer value
    | none => real (Binary64.ofInt value)
  | .number (.real value) => real value
  | .string value => text value
  | .array values => list (ofJsonItems values)
  | .object members => table (ofJsonMembers [] members)

/-- The items of a JSON array as settings. -/
def ofJsonItems : List Json → List Setting
  | [] => []
  | value :: rest => ofJson value :: ofJsonItems rest

/-- The members of a JSON object as settings, added to those before them. The last member of a name
counts. -/
def ofJsonMembers (read : List (String × Setting)) :
    List (String × Json) → List (String × Setting)
  | [] => read
  | (name, value) :: rest => ofJsonMembers (insert name (ofJson value) read) rest

end

end Setting

namespace Settings

/-- How a file of settings is written. -/
inductive FileFormat
  | toml
  | json
  deriving DecidableEq, Repr

/-- The table that the content of a file is. A byte order mark in front of it is passed over. -/
def FileFormat.read? (format : FileFormat) (content : String) :
    Option (List (String × Setting)) :=
  let text := String.ofList (Text.dropMark content.toList)
  match format with
  | toml => Toml.read? text
  | json =>
    match Json.read? text with
    | some (.object members) => some (Setting.ofJsonMembers [] members)
    | _ => none

/-- The files that may hold the settings of a name, and their formats. The first one that there is
counts. One whose own name is all extension has no format. The other formats of which the program
would take a file are left out: YAML, INI, RON, JSON5 and Corn. -/
def filesOf (name : String) : List (String × Option FileFormat) :=
  let ownName := name.toList.reverse.takeWhile (· != '/')
  [(name ++ ".toml", if ownName.isEmpty then none else some .toml),
    (name ++ ".toml.toml", some .toml), (name ++ ".toml.json", some .json)]

/-- The layer of the settings of a name: nothing if there is no file of it or one without a format,
and a failure if the file is not what its format asks for. -/
def fileLayer? (file : String → Option String) (name : String) :
    Option (List (String × Setting)) :=
  let found := (filesOf name).findSome? fun (path, format) => (file path).map (format, ·)
  match found with
  | some (some format, content) => format.read? content
  | _ => some []

end Settings

end Eligibility
