/-!
  Lexis.Task

  The things the program can be asked to do.
-/

namespace Lexis

/-- A job of the program. -/
inductive Task where
  /-- Tokenize files and print the tokens. -/
  | lex
  /-- Tokenize files and print only whether that worked. -/
  | check
  /-- Print the vocabulary in force. -/
  | vocab
  /-- Write a settings file. -/
  | init
deriving DecidableEq

namespace Task

/-- The word that asks for a task on the command line. -/
def name : Task → String
  | .lex => "lex"
  | .check => "check"
  | .vocab => "vocab"
  | .init => "init"

/-- The task a word asks for. -/
def ofName? : String → Option Task
  | "lex" => some .lex
  | "check" => some .check
  | "vocab" => some .vocab
  | "init" => some .init
  | _ => none

/-- What a task does, in a few words. -/
def description : Task → String
  | .lex => "Tokenize input files"
  | .check => "Check that input files tokenize"
  | .vocab => "Show the effective vocabulary"
  | .init => "Write a default muncht.toml"

end Task

end Lexis
