import Lexis.Settings
import Lexis.Toml.Printer
import Lexis.Toml.Reader

/-!
  Lexis.Settings.Toml

  Settings as a TOML document. Every key may be missing, keys that mean nothing here are ignored,
  and a value of the wrong type is refused.
-/

namespace Lexis.Settings

open Lexis.Toml

/-! ## Reading -/

/-- The fields of a record among the entries of a table. An array gives them by position, and a
    date has none of them. -/
def record? (names : List String) : Value → Option (List (Option Value))
  | .table _ es => some (names.map fun n => es.lookup n)
  | .array items => some ((List.range names.length).map fun i => items[i]?)
  | .tables elements =>
    some ((List.range names.length).map fun i => elements[i]?.map (.table .header))
  | .dateTime => some (names.map fun _ => none)
  | _ => none

/-- A field that may be missing. -/
def fieldOr {α : Type} (default : α) (read : Value → Option α) : Option Value → Option α
  | none => some default
  | some v => read v

/-- A truth value. -/
def bool? : Value → Option Bool
  | .boolean b => some b
  | _ => none

/-- A number of workers. -/
def jobs? : Value → Option (Option Nat)
  | .integer (.ofNat n) => some (some n)
  | _ => none

/-- A string. -/
def string? : Value → Option String
  | .string s => some s
  | _ => none

/-- A list of strings. -/
def strings? : Value → Option (List String)
  | .array items => items.mapM string?
  | _ => none

/-- Nothing is in it. -/
def isVoid : Value → Bool
  | .array items => items.isEmpty
  | .table _ es => es.isEmpty
  | .tables elements => elements.isEmpty
  | _ => false

/-- An output format: its name, or a table that gives the name an empty value. -/
def format? : Value → Option OutputFormat
  | .string s => OutputFormat.ofName? s
  | .table _ [(name, v)] => if isVoid v then OutputFormat.ofName? name else none
  | _ => none

/-- The scan settings. -/
def scanSettings? (v : Value) : Option ScanSettings :=
  match record? ["format", "jobs"] v with
  | some [format, jobs] => do
    return ⟨← fieldOr .text format? format, ← fieldOr none jobs? jobs⟩
  | _ => none

/-- The vocabulary; a missing list is the built-in one. -/
def vocabulary? (v : Value) : Option Vocabulary :=
  match record? ["keywords", "operators"] v with
  | some [keywords, operators] => do
    return ⟨← fieldOr Vocabulary.defaultKeywords strings? keywords,
      ← fieldOr Vocabulary.defaultOperators strings? operators⟩
  | _ => none

/-- The settings that a table of entries describes. -/
def ofEntries? (es : Entries) : Option Settings := do
  return ⟨← fieldOr false bool? (es.lookup "verbose"),
    ← fieldOr Settings.builtIn.lex scanSettings? (es.lookup "lex"),
    ← fieldOr Vocabulary.builtIn vocabulary? (es.lookup "vocabulary")⟩

/-- The settings that a document describes. -/
def ofToml? (text : String) : Option Settings := (Toml.read? text).bind ofEntries?

/-! ## Writing -/

/-- The largest number of workers that can be written. -/
def maxWritableJobs : Nat := Nat.pow 2 63 - 1

/-- The lines of a document that holds all settings; an unset number of workers is left out. -/
def tomlChars (s : Settings) : List Char :=
  entryChars "verbose" (toString s.verbose).toList ++
  headerChars "lex" ++
  entryChars "format" (stringChars s.lex.format.name.toList) ++
  (match s.lex.jobs with
    | some n => entryChars "jobs" (toString n).toList
    | none => []) ++
  headerChars "vocabulary" ++
  entryChars "keywords" (arrayChars s.vocabulary.keywords) ++
  entryChars "operators" (arrayChars s.vocabulary.operators)

/-- The document of the settings, if the number of workers can be written. -/
def toToml (s : Settings) : Except Failure String :=
  if s.lex.jobs.any (maxWritableJobs < ·) then .error (.settings .unwritableJobs)
  else .ok (String.ofList s.tomlChars)

end Lexis.Settings
