import Lexis.Settings
import Lexis.Task

/-!
  Lexis.CommandLine.Invocation

  What a run is asked to do, once its arguments are understood.
-/

namespace Lexis

/-- The inputs of a scan and how to scan them. -/
structure ScanRequest where
  /-- Paths, `-` for standard input. -/
  files : List String
  jobs : Option Nat
  overrides : Overrides
deriving DecidableEq

/-- A task with its arguments. -/
inductive Command where
  | lex (scan : ScanRequest) (format : Option OutputFormat)
  | check (scan : ScanRequest)
  | vocab (format : Option OutputFormat) (overrides : Overrides)
  | init (path : Option String) (force : Bool)
deriving DecidableEq

/-- The task of a command. -/
def Command.task : Command → Task
  | .lex .. => .lex
  | .check .. => .check
  | .vocab .. => .vocab
  | .init .. => .init

/-- A command with the options that every command has. -/
structure Invocation where
  verbose : Bool
  /-- Path of the settings file, if one is given. -/
  config : Option String
  noColor : Bool
  command : Command
deriving DecidableEq

end Lexis
