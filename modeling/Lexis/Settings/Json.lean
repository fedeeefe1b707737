import Lexis.Settings
import Lexis.Vocabulary.Json

/-!
  Lexis.Settings.Json

  Settings as JSON. Fields are given by name in an object or by position in an array; every field
  may be missing, and other fields of an object are ignored.
-/

namespace Lexis.Settings

/-- A number of workers, or `null` for none. -/
def jobsOfJson? : Json → Option (Option Nat)
  | .null => some none
  | v => (v.natBelow? Word.limit).map some

/-- The scan settings that a JSON value describes. -/
def scanSettingsOfJson? (v : Json) : Option ScanSettings :=
  match v.record? ["format", "jobs"] with
  | some [format, jobs] => do
    return ⟨← Json.fieldOr .text (fun v => v.choice?.bind OutputFormat.ofName?) format,
      ← Json.fieldOr none jobsOfJson? jobs⟩
  | _ => none

/-- The settings that a JSON value describes. -/
def ofJson? (v : Json) : Option Settings :=
  match v.record? ["verbose", "lex", "vocabulary"] with
  | some [verbose, lex, vocabulary] => do
    return ⟨← Json.fieldOr false Json.bool? verbose,
      ← Json.fieldOr builtIn.lex scanSettingsOfJson? lex,
      ← Json.fieldOr .builtIn Vocabulary.ofJson? vocabulary⟩
  | _ => none

end Lexis.Settings
