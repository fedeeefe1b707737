/-!
  Lexis.CommandLine.Usage

  The ways in which the arguments of a run can end it before it begins.
-/

namespace Lexis.CommandLine

/-- Why the arguments do not ask for a task. -/
inductive Usage where
  /-- Help is asked for. -/
  | help
  /-- The version is asked for. -/
  | version
  /-- There are no arguments at all. -/
  | noArguments
  /-- There are options but no task. -/
  | missingTask
  /-- A word that should be a task is none. -/
  | unknownTask
  /-- An option that does not exist here, or a word too many. -/
  | unknownArgument
  /-- No input is named. -/
  | missingInputs
  /-- A value is missing, empty, or none of those allowed. -/
  | invalidValue
  /-- A value that should be a number is none. -/
  | invalidNumber
  /-- A flag is given a value. -/
  | uselessValue
  /-- An option is given twice. -/
  | repeated
deriving DecidableEq

namespace Usage

/-- The exit status: asking for help or for the version is no mistake. -/
def status : Usage → Nat
  | .help | .version => 0
  | _ => 2

end Usage

end Lexis.CommandLine
