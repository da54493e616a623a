import Eligibility.CommandLine.Run
/-!
# The program

Hands the arguments, the environment and the files to `CommandLine.run`, prints what it leaves, and
exits with its status.
-/

namespace Eligibility

/-- The environment variables, one `name=value` after each null character. -/
def splitVariables (environment : String) : Variables :=
  (environment.splitOn "\x00").filterMap fun entry =>
    match entry.splitOn "=" with
    | name :: value => some (name, String.intercalate "=" value)
    | [] => none

/-- The contents of the files that can be read, among those that a run may ask for. -/
def readFiles (paths : List String) : IO (List (String × String)) := do
  let contents ← paths.mapM fun (path : String) => do
    try
      return some (path, ← IO.FS.readFile path)
    catch _ =>
      return none
  return contents.filterMap id

/-- The paths of the files that a run may ask for: those of the configuration and that of a rule. -/
def pathsOf (args : List String) (vars : Variables) : List String :=
  let names := ["default", Settings.environmentOf vars, CommandLine.serviceName]
  let configuration := names.flatMap fun name =>
    (Settings.filesOf name).map fun file => CommandLine.configPath vars file.1
  match CommandLine.read args with
  | .ok (.evaluate (.file path) _ _) => path :: configuration
  | _ => configuration

end Eligibility

open Eligibility in
/-- Runs the program. -/
def main (args : List String) : IO UInt32 := do
  let vars := splitVariables (← IO.FS.readFile "/proc/self/environ")
  let files ← readFiles (pathsOf args vars)
  let outcome := CommandLine.run args vars fun path =>
    (files.find? fun entry => entry.1 == path).map Prod.snd
  if let some output := outcome.output then
    IO.println output.render
  if let some failure := outcome.failure then
    IO.eprintln failure.render
  return UInt32.ofNat outcome.status
