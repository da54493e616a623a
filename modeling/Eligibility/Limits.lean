import Eligibility.Evaluation
import Eligibility.Json.Reader
import Eligibility.RuleTree.Basic
/-!
# Limits

What a service accepts: how long a rule text may be, how deeply its parentheses and its tree may
nest, which fields it may read, and whether a missing field is an error.
-/

namespace Eligibility

/-- The limits of a service. -/
structure Limits where
  /-- The most bytes of a rule text. -/
  maxRuleLength : Nat
  /-- The most levels of parentheses of a rule text. -/
  maxNestingDepth : Nat
  /-- The most levels of a rule tree. -/
  maxTreeDepth : Nat
  /-- The fields that rules may read. An empty list allows every field. -/
  allowedAttributes : List String
  /-- Whether a missing field is an error. -/
  strictMissingFields : Bool
  deriving DecidableEq, Repr

namespace Limits

/-- The limits of a service that is not told otherwise. -/
def default : Limits := ⟨4096, 32, 256, [], false⟩

/-- Whether rules may read a field. -/
def allows (limits : Limits) (field : String) : Bool :=
  limits.allowedAttributes.isEmpty || limits.allowedAttributes.contains field

/-- What a missing field amounts to. -/
def missingPolicy (limits : Limits) : MissingPolicy :=
  if limits.strictMissingFields then .error else .noMatch

/-! ## Checks -/

/-- Whether a rule text is short enough. -/
def checkLength (limits : Limits) (text : String) : Except ValidationError Unit :=
  if limits.maxRuleLength < text.utf8ByteSize then
    .error (.ruleTooLong text.utf8ByteSize limits.maxRuleLength)
  else .ok ()

/-- Whether the parentheses of a token list nest as they may. -/
def checkNesting (limits : Limits) (tokens : List Token) : Except ValidationError Unit :=
  if limits.maxNestingDepth < Token.nestingDepth tokens then
    .error (.nestingTooDeep (Token.nestingDepth tokens) limits.maxNestingDepth)
  else .ok ()

/-- Whether a tree may have a number of levels. -/
def checkDepth (limits : Limits) (depth : Nat) : Except ValidationError Unit :=
  if limits.maxTreeDepth < depth then .error (.treeTooDeep depth limits.maxTreeDepth) else .ok ()

/-- Whether a rule reads allowed fields only. Of several others the smallest is reported. -/
def checkFields (limits : Limits) (tree : RuleTree) : Except ValidationError Unit :=
  match tree.fields.find? fun field => !limits.allows field with
  | some field => .error (.unknownAttribute field)
  | none => .ok ()

/-! ## Reading -/

/-- A natural number of at most 64 bits. -/
def naturalOfJson? : Json → Option Nat
  | .number (.integer value) => if 0 ≤ value then some value.toNat else none
  | _ => none

/-- A truth value. -/
def boolOfJson? : Json → Option Bool
  | .bool value => some value
  | _ => none

/-- A list of strings. -/
def stringsOfJson? : Json → Option (List String)
  | .array items => items.mapM Json.asString?
  | _ => none

/-- The value of a member if it is there, read by `read`, and a default if it is not. -/
def settingOfJson? {α : Type} (read : Json → Option α) (default : α) (name : String) (json : Json) :
    Option α :=
  match json.member? name with
  | some value => read value
  | none => some default

/-- The limits that a JSON object sets. What it does not mention keeps its default, and members that
name no limit are passed over. -/
def ofJson? (json : Json) : Option Limits :=
  match json with
  | .object _ => do
    let maxRuleLength ← settingOfJson? naturalOfJson? 4096 "max_rule_length" json
    let maxNestingDepth ← settingOfJson? naturalOfJson? 32 "max_nesting_depth" json
    let maxTreeDepth ← settingOfJson? naturalOfJson? 256 "max_tree_depth" json
    let allowedAttributes ← settingOfJson? stringsOfJson? [] "allowed_attributes" json
    let strictMissingFields ← settingOfJson? boolOfJson? false "strict_missing_fields" json
    return { maxRuleLength, maxNestingDepth, maxTreeDepth, allowedAttributes, strictMissingFields }
  | _ => none

end Limits

end Eligibility
