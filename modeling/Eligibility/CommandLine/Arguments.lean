/-!
# The grammar of the command line

`CommandLine.read` turns the arguments of the program into a `Command`, or says why there is none:
help or the version is asked for, or the arguments follow no usage.

Arguments are read from left to right, options and other arguments in any order. The options before
the name of the command are read first; those after it are read with the options of the command. An
option is given at most once in each of these places. Its value follows it as an argument of its
own, or after an equals sign, or directly after its letter. After `--` nothing is an option.
-/

namespace Eligibility.CommandLine

/-! ## Options -/

/-- What an argument that starts with a dash can ask for. -/
inductive Flag
  | logLevel
  | jsonLogs
  | help
  | version
  | operator
  | rule
  | ast
  | facts
  | explain
  deriving DecidableEq, Repr

namespace Flag

/-- The name of an option after two dashes. -/
def long : Flag → String
  | logLevel => "log-level"
  | jsonLogs => "json-logs"
  | help => "help"
  | version => "version"
  | operator => "operator"
  | rule => "rule"
  | ast => "ast"
  | facts => "facts"
  | explain => "explain"

/-- The letter of an option after one dash. -/
def short? : Flag → Option Char
  | logLevel => some 'l'
  | help => some 'h'
  | version => some 'V'
  | operator => some 'o'
  | rule => some 'r'
  | ast => some 'a'
  | facts => some 'f'
  | jsonLogs | explain => none

/-- Whether an option has a value. -/
def hasValue : Flag → Bool
  | logLevel | operator | rule | ast | facts => true
  | jsonLogs | help | version | explain => false

/-- Whether an option only asks for information, which ends the reading. -/
def isRequest : Flag → Bool
  | help | version => true
  | _ => false

/-- The options that are known everywhere. -/
def everywhere : List Flag := [logLevel, jsonLogs, help, version]

end Flag

/-! ## Single arguments -/

/-- What one argument is. -/
inductive Argument
  /-- The end of the options. -/
  | escape
  /-- Not an option. -/
  | plain
  /-- An option without a value. -/
  | switch (flag : Flag)
  /-- An option with its value. -/
  | valued (flag : Flag) (value : String)
  /-- An option whose value is the next argument. -/
  | awaiting (flag : Flag)
  /-- An option that is not known, or has a value that it cannot have. -/
  | unknown
  deriving DecidableEq, Repr

namespace Argument

/-- An option by its name, with the text after an equals sign if there is one. -/
def ofLong (known : List Flag) (body : List Char) : Argument :=
  let name := String.ofList (body.takeWhile (· != '='))
  let value? := (body.dropWhile (· != '=')).tail?
  match known.find? fun flag => flag.long == name with
  | none => unknown
  | some flag =>
    match flag.hasValue, value? with
    | true, some value => valued flag (String.ofList value)
    | true, none => awaiting flag
    | false, some _ => unknown
    | false, none => switch flag

/-- An option by its letter, with the text directly after it. -/
def ofShort (known : List Flag) (letter : Char) (rest : List Char) : Argument :=
  match known.find? fun flag => flag.short? == some letter with
  | none => unknown
  | some flag =>
    if flag.hasValue then
      match rest with
      | [] => awaiting flag
      | '=' :: value => valued flag (String.ofList value)
      | value => valued flag (String.ofList value)
    else switch flag

/-- What one argument is among some known options. A single dash is no option. -/
def of (known : List Flag) (text : String) : Argument :=
  match text.toList with
  | ['-', '-'] => escape
  | '-' :: '-' :: body => ofLong known body
  | '-' :: letter :: rest => ofShort known letter rest
  | _ => plain

end Argument

/-! ## Reading -/

/-- Why the arguments give no command. -/
inductive Stop
  /-- Help or the version is asked for. -/
  | information
  /-- The arguments follow no usage. -/
  | usage
  deriving DecidableEq, Repr

/-- The options and the plain arguments read so far. -/
structure Given where
  options : List (Flag × String)
  plain : List String
  deriving DecidableEq, Repr

namespace Given

/-- The arguments when nothing has been read. -/
def empty : Given := ⟨[], []⟩

/-- The value of an option. -/
def value? (given : Given) (flag : Flag) : Option String :=
  (given.options.find? fun option => option.1 == flag).map Prod.snd

/-- Whether an option is given. -/
def has (given : Given) (flag : Flag) : Bool := (given.value? flag).isSome

/-- The arguments with one more option, which must not have been given yet. -/
def addOption (given : Given) (flag : Flag) (value : String) : Except Stop Given :=
  if flag.isRequest then .error .information
  else if given.has flag then .error .usage
  else .ok { given with options := given.options ++ [(flag, value)] }

/-- The arguments with more plain ones, of which there may be `capacity` in all. -/
def addPlain (given : Given) (capacity : Option Nat) (texts : List String) : Except Stop Given :=
  let plain := given.plain ++ texts
  if capacity.all (plain.length ≤ ·) then .ok { given with plain } else .error .usage

end Given

/-- Whether an argument cannot be the value of the option before it. -/
def isDashed (text : String) : Bool :=
  text.startsWith "-" && text != "-"

/-- The options and plain arguments of a command. -/
def readArguments (known : List Flag) (capacity : Option Nat) (given : Given) :
    List String → Except Stop Given
  | [] => .ok given
  | text :: rest =>
    match Argument.of known text with
    | .escape => given.addPlain capacity rest
    | .plain => do readArguments known capacity (← given.addPlain capacity [text]) rest
    | .switch flag => do readArguments known capacity (← given.addOption flag "") rest
    | .valued flag value => do readArguments known capacity (← given.addOption flag value) rest
    | .awaiting flag =>
      match rest with
      | [] => .error .usage
      | value :: rest =>
        if isDashed value then .error .usage
        else do readArguments known capacity (← given.addOption flag value) rest
    | .unknown => .error .usage

/-- The arguments from the name of the command on, after the options before it. -/
def skipLeadingOptions (given : Given) : List String → Except Stop (List String)
  | [] => .error .usage
  | text :: rest =>
    match Argument.of Flag.everywhere text with
    | .plain => .ok (text :: rest)
    | .switch flag => do skipLeadingOptions (← given.addOption flag "") rest
    | .valued flag value => do skipLeadingOptions (← given.addOption flag value) rest
    | .awaiting flag =>
      match rest with
      | [] => .error .usage
      | value :: rest =>
        if isDashed value then .error .usage
        else do skipLeadingOptions (← given.addOption flag value) rest
    | .escape | .unknown => .error .usage

/-! ## Commands -/

/-- Where the rule of an evaluation comes from. -/
inductive RuleSource
  | text (rule : String)
  /-- A file with the rule as JSON. -/
  | file (path : String)
  deriving DecidableEq, Repr

/-- What the program is asked to do. -/
inductive Command
  | compile (rule : String)
  | combine (operator : String) (rules : List String)
  | evaluate (source : RuleSource) (facts : String) (explain : Bool)
  deriving DecidableEq, Repr

/-- The command to compile one rule. -/
def readCompile (args : List String) : Except Stop Command := do
  let given ← readArguments Flag.everywhere (some 1) .empty args
  match given.plain with
  | [rule] => return .compile rule
  | _ => throw .usage

/-- The command to combine rules, by `AND` unless an operator is given. -/
def readCombine (args : List String) : Except Stop Command := do
  let given ← readArguments (Flag.everywhere ++ [.operator]) none .empty args
  return .combine ((given.value? .operator).getD "AND") given.plain

/-- The command to evaluate one rule, given by its text or by a file, on some facts. -/
def readEvaluate (args : List String) : Except Stop Command := do
  let known := Flag.everywhere ++ [.rule, .ast, .facts, .explain]
  let given ← readArguments known (some 0) .empty args
  match given.value? .rule, given.value? .ast, given.value? .facts with
  | some rule, none, some facts => return .evaluate (.text rule) facts (given.has .explain)
  | none, some path, some facts => return .evaluate (.file path) facts (given.has .explain)
  | _, _, _ => throw .usage

/-- The names that help can be asked about. -/
def topics : List String := ["compile", "combine", "evaluate", "help"]

/-- Help on the program or on one command. -/
def readHelp (args : List String) : Stop :=
  match args with
  | [] => .information
  | [topic] => if topics.contains topic then .information else .usage
  | _ => .usage

/-- The command that some arguments ask for. -/
def read (args : List String) : Except Stop Command := do
  match ← skipLeadingOptions .empty args with
  | "compile" :: rest => readCompile rest
  | "combine" :: rest => readCombine rest
  | "evaluate" :: rest => readEvaluate rest
  | "help" :: rest => throw (readHelp rest)
  | _ => throw .usage

end Eligibility.CommandLine
