import Eligibility.Settings.Value
/-!
# Tables of TOML

A TOML document defines its tables piece by piece, and defines nothing twice. While a document is
read, a `Node` remembers how a table came about: `Node.assign` sets a key, which may be dotted;
`Node.openTable` and `Node.openItem` follow the headers of tables and of the items of table arrays.
Each fails where TOML forbids the definition.
-/

namespace Eligibility.Toml

/-- How a table came about. -/
inductive TableOrigin
  /-- As a parent of the table of a header. -/
  | implied
  /-- As a parent in a dotted key, or as one that was implied before. -/
  | dotted
  /-- By its own header. -/
  | header
  deriving DecidableEq, Repr

/-- A part of a document in progress. -/
inductive Node
  /-- A value, to which nothing can be added. -/
  | leaf (value : Setting)
  | table (origin : TableOrigin) (members : List (String × Node))
  /-- A table array: the items that are complete, and the members of the last one. -/
  | tables (complete : List Setting) (last : List (String × Node))

namespace Node

mutual

/-- The value of a part of a document. -/
def toSetting : Node → Setting
  | leaf value => value
  | table _ members => .table (toMembers members)
  | tables complete last => .list (complete ++ [.table (toMembers last)])

/-- The values of the members of a table. -/
def toMembers : List (String × Node) → List (String × Setting)
  | [] => []
  | (key, node) :: rest => (key, node.toSetting) :: toMembers rest

end

/-- The part at a key. -/
def lookup (key : String) (members : List (String × Node)) : Option Node :=
  (members.find? fun member => member.1 == key).map Prod.snd

/-- The members with the part at one key set. -/
def insert (key : String) (node : Node) : List (String × Node) → List (String × Node)
  | [] => [(key, node)]
  | member :: rest =>
    if member.1 = key then (key, node) :: rest else member :: insert key node rest

/-! ## Keys -/

/-- The members with a value at a dotted key: the parents of the key, then the key itself. No parent
may have a header of its own, and the last one may not be an item of a table array; those that were
only implied are tables of dotted keys from then on. -/
def assign (key : String) (value : Setting) :
    List String → List (String × Node) → Option (List (String × Node))
  | [], members =>
    match lookup key members with
    | some _ => none
    | none => some (insert key (leaf value) members)
  | parent :: parents, members =>
    match lookup parent members with
    | none => do
      return insert parent (table .dotted (← assign key value parents [])) members
    | some (leaf _) => none
    | some (table origin inner) =>
      if origin = .header then none
      else do return insert parent (table .dotted (← assign key value parents inner)) members
    | some (tables complete last) =>
      if parents = [] then none
      else do return insert parent (tables complete (← assign key value parents last)) members

/-! ## Headers -/

/-- The members with the table at a path changed. The last item stands for a table array, and a
table that is not there comes about by implication. -/
def change (f : List (String × Node) → Option (List (String × Node))) :
    List String → List (String × Node) → Option (List (String × Node))
  | [], members => f members
  | key :: path, members =>
    match lookup key members with
    | none => do return insert key (table .implied (← change f path [])) members
    | some (leaf _) => none
    | some (table origin inner) => do
      return insert key (table origin (← change f path inner)) members
    | some (tables complete last) => do
      return insert key (tables complete (← change f path last)) members

/-- The members after the header of a table, which may have been implied but not defined. -/
def openTable (key : String) (members : List (String × Node)) : Option (List (String × Node)) :=
  match lookup key members with
  | none => some (insert key (table .header []) members)
  | some (table .implied inner) => some (insert key (table .header inner) members)
  | some _ => none

/-- The members after the header of an item of a table array. -/
def openItem (key : String) (members : List (String × Node)) : Option (List (String × Node)) :=
  match lookup key members with
  | none => some (insert key (tables [] []) members)
  | some (tables complete last) =>
    some (insert key (tables (complete ++ [.table (toMembers last)]) []) members)
  | some _ => none

end Node

end Eligibility.Toml
