import Eligibility.CommandLine.Arguments
import Eligibility.Service
import Eligibility.Settings.Layers
/-!
# Running the program

`CommandLine.run` is the program as a function of its arguments, its environment variables and the
files it can read. Its `Outcome` is an exit status, and the JSON that goes to the standard output or
to the error output.
-/

namespace Eligibility

/-! ## Outcomes -/

/-- The report on a rule as a JSON value. -/
def Report.toJson (report : Report) : Json :=
  .object [("evaluation_trace", .array (report.trace.map .string)),
    ("matched", .bool report.matched),
    ("matched_conditions", .array (report.matchedConditions.map .string))]

/-- The wording of a failure, followed by that of its cause. -/
def Failure.fullMessage? (failure : Failure) : Option String :=
  failure.message?.map fun message =>
    match failure.causeMessage? with
    | some cause => message ++ ": " ++ cause
    | none => message

namespace CommandLine

/-- Why a command fails. -/
inductive CommandFailure
  | rule (failure : Failure)
  | unreadableFile
  deriving DecidableEq, Repr

/-- What a run of the program leaves behind. -/
structure Outcome where
  status : Nat
  output : Option Json
  failure : Option Json
  deriving Repr

namespace Outcome

/-- A run with nothing to print. -/
def silent (status : Nat) : Outcome := ⟨status, none, none⟩

/-- A run that fails: with a code, and with a wording if there is one. -/
def failed (status : Nat) (code : String) (message : Option String) : Outcome :=
  ⟨status, none, some (.object (("error", .string code) ::
    (message.map fun message => ("message", Json.string message)).toList))⟩

/-- The outcome of a command. -/
def ofResult : Except CommandFailure Json → Outcome
  | .ok value => ⟨0, some value, none⟩
  | .error (.rule failure) => failed 2 failure.code failure.fullMessage?
  | .error .unreadableFile => failed 1 "INTERNAL_ERROR" none

end Outcome

/-! ## Commands -/

/-- The rule of an evaluation. -/
def ruleOf (limits : Limits) (file : String → Option String) :
    RuleSource → Except CommandFailure RuleTree
  | .text rule => (Service.compile limits rule).mapError .rule
  | .file path =>
    match file path with
    | none => .error .unreadableFile
    | some content =>
      match Json.read? content with
      | none => .error (.rule .invalidJson)
      | some value => (Service.decode limits value).mapError .rule

/-- What a command prints. The rule of an evaluation is read before its facts. -/
def perform (limits : Limits) (file : String → Option String) :
    Command → Except CommandFailure Json
  | .compile rule => ((Service.compile limits rule).mapError .rule).map RuleTree.toJson
  | .combine operator rules =>
    ((Service.combineTexts limits operator rules).mapError .rule).map RuleTree.toJson
  | .evaluate source facts explain => do
    let tree ← ruleOf limits file source
    let facts ← (Facts.read facts).mapError .rule
    if explain then
      let report ← (Service.explain limits tree facts).mapError .rule
      return report.toJson
    else
      let eligible ← (Service.evaluate limits tree facts).mapError .rule
      return .object [("eligible", .bool eligible)]

/-! ## The program -/

/-- The name of the program, which is also the name of its own configuration file. -/
def serviceName : String := "rule-engine"

/-- The path of a file of the configuration, which is in a directory of its own. An empty directory
is the one that the program runs in. -/
def configPath (vars : Variables) (name : String) : String :=
  let directory := (vars.get? "CONFIG_DIR").getD "config"
  if directory.isEmpty then name else directory ++ "/" ++ name

/-- The settings of a run. Settings that cannot be loaded give way to the defaults. -/
def settingsOf (vars : Variables) (file : String → Option String) : Settings :=
  (Settings.load? serviceName vars fun name => file (configPath vars name)).getD Settings.default

/-- A run of the program. -/
def run (args : List String) (vars : Variables)
    (file : String → Option String) : Outcome :=
  match read args with
  | .error .information => .silent 0
  | .error .usage => .silent 2
  | .ok command => .ofResult (perform (settingsOf vars file).limits file command)

end CommandLine

end Eligibility
