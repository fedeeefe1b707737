import Lexis.Failure
import Lexis.Vocabulary

/-!
  Lexis.Settings

  The settings of the program: how much it tells, how it prints, how many workers it uses, and the
  vocabulary.
-/

namespace Lexis

/-- How tokens and words are printed. -/
inductive OutputFormat where
  | text
  | json
deriving DecidableEq

namespace OutputFormat

/-- The name of a format. -/
def name : OutputFormat → String
  | .text => "text"
  | .json => "json"

/-- The format with a given name. -/
def ofName? : String → Option OutputFormat
  | "text" => some .text
  | "json" => some .json
  | _ => none

theorem ofName?_name (f : OutputFormat) : ofName? f.name = some f := by
  cases f <;> rfl

end OutputFormat

/-- How inputs are scanned and shown. -/
structure ScanSettings where
  /-- Output format unless the command line gives one. -/
  format : OutputFormat
  /-- Number of workers, if it is set. -/
  jobs : Option Nat
deriving DecidableEq

/-- All settings. -/
structure Settings where
  verbose : Bool
  lex : ScanSettings
  vocabulary : Vocabulary
deriving DecidableEq

namespace Settings

/-- The settings that nobody configured. -/
def builtIn : Settings := ⟨false, ⟨.text, none⟩, .builtIn⟩

/-- The name of a settings file. -/
def fileName : String := "muncht.toml"

/-- Settings with which every task can run: some worker, and a usable vocabulary. -/
def validate (s : Settings) : Except Failure Unit :=
  if s.lex.jobs = some 0 then .error (.settings .zeroJobs)
  else s.vocabulary.validate.mapError .vocabulary

/-- The number of workers of a run: from the command line, else from the settings, else one for
    each processor. -/
def resolveJobs (s : Settings) (jobs : Option Nat) (processors : Nat) : Except Failure Nat :=
  match (jobs.or s.lex.jobs).getD processors with
  | 0 => .error (.refused .zeroJobs)
  | n => .ok n

end Settings

end Lexis
