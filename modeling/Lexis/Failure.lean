import Lexis.LexError
import Lexis.OsError
import Lexis.Vocabulary

/-!
  Lexis.Failure

  The ways in which a run of the program can fail, from an unusable settings file to an input that
  does not tokenize, and their wording.
-/

namespace Lexis

/-- What is wrong with the settings. -/
inductive SettingsError where
  /-- There is no file at the given path. -/
  | notFound (path : String)
  /-- The file does not hold settings. -/
  | malformed (path : String)
  /-- Zero workers are asked for. -/
  | zeroJobs
  /-- The number of workers cannot be written down. -/
  | unwritableJobs
deriving DecidableEq

/-- The text of a settings error. What a malformed file has wrong with it is not told apart. -/
def SettingsError.message : SettingsError → String
  | .notFound path => s!"Configuration file not found: {path}"
  | .malformed path => s!"Failed to parse {path}: <toml error>"
  | .zeroJobs => "lex.jobs must be at least 1"
  | .unwritableJobs => "Failed to serialize configuration: out-of-range value for u64 type"

/-- Why an input could not be read. -/
inductive InputError where
  | missing (path : String)
  | notFile (path : String)
  | unreadable (path : String) (e : OsError)
deriving DecidableEq

/-- The text of an input error. -/
def InputError.message : InputError → String
  | .missing path => s!"Input path does not exist: {path}"
  | .notFile path => s!"Input path is not a file: {path}"
  | .unreadable path e => s!"Failed to read {path}: {e.message}"

/-- A request that the program declines. -/
inductive Refusal where
  /-- Zero workers are asked for. -/
  | zeroJobs
  /-- Standard input is named more than once. -/
  | repeatedInput
  /-- The place for a settings file is no directory. -/
  | targetNotDirectory (path : String)
  /-- There is a settings file already. -/
  | settingsExist (path : String)
  /-- Some inputs failed. -/
  | filesFailed (count : Nat)
deriving DecidableEq

/-- The text of a refusal. -/
def Refusal.message : Refusal → String
  | .zeroJobs => "--jobs must be at least 1"
  | .repeatedInput => "standard input (`-`) can only be read once"
  | .targetNotDirectory path => s!"Target path is not a directory: {path}"
  | .settingsExist path =>
    s!"Configuration file already exists (use --force to overwrite): {path}"
  | .filesFailed count => s!"{count} file(s) failed to tokenize"

/-- Why a run, or the scan of one input, failed. -/
inductive Failure where
  | settings (e : SettingsError)
  | input (e : InputError)
  | vocabulary (e : VocabularyError)
  /-- The input under this name does not tokenize. -/
  | lex (name : String) (e : LexError)
  | refused (r : Refusal)
  | os (e : OsError)
  /-- A count grew beyond its range. -/
  | overflow (e : Word.Overflow)
deriving DecidableEq

namespace Failure

/-- The text of a failure. -/
def message : Failure → String
  | .settings e => "Configuration error: " ++ e.message
  | .input e => "File operation failed: " ++ e.message
  | .vocabulary e => "Vocabulary error: " ++ e.message
  | .lex name e => s!"{name}:{e.span.text}: error[{e.code}]: {e.message}"
  | .refused r => "Validation error: " ++ r.message
  | .os e => "IO error: " ++ e.message
  | .overflow e => e.message

/-- The last line of a run that failed. -/
def line (f : Failure) : String := "error: " ++ f.message

end Failure

end Lexis
