import Lexis.Proofs.Toml.Documents
import Lexis.Settings.Toml

/-!
  Lexis.Proofs.Settings.Document

  Settings are read back from their document. In between stand the entries of the document: the
  lines that are written give these entries, and the entries give the settings.
-/

namespace Lexis.Settings

open Lexis.Toml

/-! ## Entries -/

/-- The table of the scan settings. -/
def scanValue (lex : ScanSettings) : Value :=
  .table .header (("format", .string lex.format.name) ::
    (lex.jobs.map fun n : Nat => ("jobs", Value.integer n)).toList)

/-- The table of the vocabulary. -/
def vocabularyValue (v : Vocabulary) : Value :=
  .table .header
    [("keywords", .array (v.keywords.map .string)), ("operators", .array (v.operators.map .string))]

/-- The entries of the document of the settings. -/
def entries (s : Settings) : Entries :=
  [("verbose", .boolean s.verbose), ("lex", scanValue s.lex),
   ("vocabulary", vocabularyValue s.vocabulary)]

theorem scanSettings?_scanValue (lex : ScanSettings) : scanSettings? (scanValue lex) = some lex := by
  obtain ⟨format, jobs⟩ := lex
  have hformat : format? (.string format.name) = some format := OutputFormat.ofName?_name format
  cases jobs with
  | none =>
    show ((format? (.string format.name)).bind fun f => some (ScanSettings.mk f none)) = _
    rw [hformat]
    rfl
  | some n =>
    show ((format? (.string format.name)).bind fun f => some (ScanSettings.mk f (some n))) = _
    rw [hformat]
    rfl

theorem strings?_array (ss : List String) : strings? (.array (ss.map .string)) = some ss := by
  induction ss with
  | nil => rfl
  | cons s ss ih =>
    have hcons : strings? (.array ((s :: ss).map .string)) =
        (strings? (.array (ss.map .string))).bind fun r => some (s :: r) := by
      simp [strings?, string?]
    rw [hcons, ih]
    rfl

theorem vocabulary?_vocabularyValue (v : Vocabulary) :
    vocabulary? (vocabularyValue v) = some v := by
  show ((strings? (.array (v.keywords.map .string))).bind fun ks =>
    (strings? (.array (v.operators.map .string))).bind fun os => some (Vocabulary.mk ks os)) = _
  rw [strings?_array, strings?_array]
  rfl

theorem ofEntries?_entries (s : Settings) : ofEntries? s.entries = some s := by
  show ((scanSettings? (scanValue s.lex)).bind fun lex =>
    (vocabulary? (vocabularyValue s.vocabulary)).bind fun words =>
      some (Settings.mk s.verbose lex words)) = _
  rw [scanSettings?_scanValue, vocabulary?_vocabularyValue]
  rfl

/-! ## Lines -/

theorem lines?_tomlChars {s : Settings} (h : ∀ n ∈ s.lex.jobs, n ≤ maxWritableJobs) (fuel : Nat) :
    Document.empty.lines? (fuel + 10) s.tomlChars = some ⟨s.entries, ["vocabulary"]⟩ := by
  obtain ⟨verbose, ⟨format, jobs⟩, ⟨keywords, operators⟩⟩ := s
  have hlast : ∀ text, entryChars "operators" text = entryChars "operators" text ++ [] :=
    fun text => (List.append_nil _).symm
  simp only [tomlChars, List.append_assoc]
  -- line after line; the entries so far are found by evaluation
  rw [hlast, Document.lines?_entry rfl (denotes_bool verbose) rfl, Document.lines?_header rfl rfl,
    Document.lines?_entry rfl (denotes_string _) rfl]
  cases jobs with
  | none =>
    simp only [List.nil_append]
    rw [Document.lines?_header rfl rfl, Document.lines?_entry rfl (denotes_strings keywords) rfl,
      Document.lines?_entry rfl (denotes_strings operators) rfl]
    rfl
  | some n =>
    have hn : n ≤ 9223372036854775807 := h n rfl
    simp only
    rw [Document.lines?_entry rfl (denotes_nat hn) rfl, Document.lines?_header rfl rfl,
      Document.lines?_entry rfl (denotes_strings keywords) rfl,
      Document.lines?_entry rfl (denotes_strings operators) rfl]
    rfl

/-- There is fuel for each of the nine lines. -/
theorem le_length_tomlChars (s : Settings) : 9 ≤ s.tomlChars.length := by
  simp only [tomlChars, entryChars, headerChars, List.length_append, List.length_cons,
    List.length_nil]
  omega

/-- Settings are read back from their document. -/
theorem ofToml?_tomlChars {s : Settings} (h : ∀ n ∈ s.lex.jobs, n ≤ maxWritableJobs) :
    ofToml? (String.ofList s.tomlChars) = some s := by
  have hmark : dropMark s.tomlChars = s.tomlChars := rfl
  have hfuel : s.tomlChars.length + 1 = (s.tomlChars.length - 9) + 10 := by
    have := le_length_tomlChars s
    omega
  rw [ofToml?, read?, String.toList_ofList, hmark, hfuel, lines?_tomlChars h]
  exact ofEntries?_entries s

/-! ## What can be written -/

theorem toToml_eq_ok {s : Settings} (h : ∀ n ∈ s.lex.jobs, n ≤ maxWritableJobs) :
    s.toToml = .ok (String.ofList s.tomlChars) := by
  have hsmall : ¬s.lex.jobs.any (maxWritableJobs < ·) = true := by
    rw [Option.any_eq_true_iff_get]
    rintro ⟨hsome, hlarge⟩
    have := h _ (Option.get_mem hsome)
    simp at hlarge
    omega
  rw [toToml, if_neg hsmall]

end Lexis.Settings
