import Eligibility.Limits
import Eligibility.Settings.Value
import Eligibility.Settings.Variables
/-!
# Settings

The settings of the program: its name, the environment it runs in, the limits of its service and
what it logs. `Settings.ofMembers?` takes them from a table; what the table does not mention keeps
its default, and keys that name no setting are passed over.
-/

namespace Eligibility

/-! ## Logging -/

/-- What is logged, and how. -/
structure LogSettings where
  serviceName : String
  level : String
  json : Bool
  deriving DecidableEq, Repr

namespace LogSettings

/-- The level of a program that is not told otherwise. -/
def defaultLevel : String := "info"

/-- The logging of a service that only environment variables control. -/
def ofVariables (serviceName : String) (vars : Variables) : LogSettings where
  serviceName := serviceName
  level := (vars.get? "RUST_LOG").getD defaultLevel
  json :=
    match vars.get? "JSON_LOGS" with
    | some value => value == "true" || value == "1"
    | none => false

/-- The logging that a section sets. -/
def ofSetting? (value : Setting) : Option LogSettings := do
  let fields ← value.fields? ["service_name", "log_level", "json_logs"]
  let serviceName ← Setting.read? Setting.toText? "unknown-service" "service_name" fields
  let level ← Setting.read? Setting.toText? defaultLevel "log_level" fields
  let json ← Setting.read? Setting.toBool? false "json_logs" fields
  return { serviceName, level, json }

end LogSettings

/-! ## Limits -/

/-- The limits that a section sets. -/
def Limits.ofSetting? (value : Setting) : Option Limits := do
  let fields ← value.fields? ["max_rule_length", "max_nesting_depth", "max_tree_depth",
    "allowed_attributes", "strict_missing_fields"]
  let maxRuleLength ← Setting.read? Setting.toNatural? 4096 "max_rule_length" fields
  let maxNestingDepth ← Setting.read? Setting.toNatural? 32 "max_nesting_depth" fields
  let maxTreeDepth ← Setting.read? Setting.toNatural? 256 "max_tree_depth" fields
  let allowedAttributes ← Setting.read? Setting.toTexts? [] "allowed_attributes" fields
  let strictMissingFields ← Setting.read? Setting.toBool? false "strict_missing_fields" fields
  return { maxRuleLength, maxNestingDepth, maxTreeDepth, allowedAttributes, strictMissingFields }

/-! ## All settings -/

/-- The settings of the program. -/
structure Settings where
  serviceName : String
  environment : String
  limits : Limits
  logging : LogSettings
  deriving DecidableEq, Repr

namespace Settings

/-- The settings of a program that is not told anything. -/
def default : Settings :=
  ⟨"", "", Limits.default, ⟨"unknown-service", LogSettings.defaultLevel, false⟩⟩

/-- Whether the program runs in production. -/
def isProduction (settings : Settings) : Bool :=
  settings.environment == "production"

/-- The settings that a table sets. -/
def ofMembers? (members : List (String × Setting)) : Option Settings := do
  let serviceName ← Setting.read? Setting.toText? default.serviceName "service_name" members
  let environment ← Setting.read? Setting.toText? default.environment "environment" members
  let limits ← Setting.read? Limits.ofSetting? default.limits "engine" members
  let logging ← Setting.read? LogSettings.ofSetting? default.logging "observability" members
  return { serviceName, environment, limits, logging }

end Settings

end Eligibility
