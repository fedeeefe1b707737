import Lexis.Command.Load
import Lexis.Proofs.FileTree
import Lexis.Proofs.Settings.Document

/-!
  Lexis.Proofs.SavedSettings

  Settings that are saved are loaded again as they were. Saving writes a document after the
  directories above it, and the document is read back by the grammar of TOML, in which every string
  has a notation (`ofToml?_tomlChars`); loading then only asks for what was valid before.
-/

namespace Lexis

namespace FileTree

/-- The directories above a path can be made, and then a file can be written there. -/
def isWritable (t : FileTree) (path : String) : Bool :=
  match (Path.parent? path).elim (t, .ok ()) t.makeDirectories with
  | (t, .ok _) => (t.writeText path "").isOk
  | (_, .error _) => false

/-- Where an empty file can be written, every text can. -/
theorem exists_writeText {t : FileTree} {path : String} (h : t.isWritable path = true) :
    ∃ t₁, (Path.parent? path).elim (t, .ok ()) t.makeDirectories = (t₁, .ok ()) ∧
      ∀ text, ∃ t', t₁.writeText path text = .ok t' := by
  unfold isWritable at h
  split at h
  next t₁ u hdirectories =>
    refine ⟨t₁, hdirectories, fun text => ?_⟩
    cases hempty : t₁.writeText path "" with
    | error e =>
      rw [hempty] at h
      exact nomatch h
    | ok t₂ =>
      obtain ⟨place, name, hreceives, -⟩ := writeText_eq_ok_iff.mp hempty
      exact ⟨_, writeText_eq_ok_iff.mpr ⟨place, name, hreceives, rfl⟩⟩
  next => exact nomatch h

end FileTree

namespace Settings

variable {s : Settings} {t t' : FileTree} {path : String}

/-- The file that holds the document of valid settings is loaded as these settings. -/
theorem ofFile_writeText (hvalid : s.validate = .ok ())
    (hjobs : ∀ n ∈ s.lex.jobs, n ≤ maxWritableJobs)
    (h : t.writeText path (String.ofList s.tomlChars) = .ok t') : ofFile t' path = .ok s := by
  rw [ofFile, FileTree.pathExists_writeText h, FileTree.readText_writeText h]
  simp only [ofToml?_tomlChars hjobs, hvalid]
  rfl

end Settings

/-- Valid settings with a number of workers that TOML can hold, if any, saved at a writable place,
    are loaded as they were: the same lists in order and with repetitions, whatever the characters
    of the operators are, and an empty list is not taken for a missing one. -/
theorem saved_settings_are_loaded {s : Settings} (hvalid : s.validate = .ok ())
    (hjobs : ∀ n ∈ s.lex.jobs, n ≤ Nat.pow 2 63 - 1) {t : FileTree} {path : String}
    (hpath : t.isWritable path = true) :
    ∃ t', Settings.toFile t path s = (t', .ok ()) ∧ Settings.ofFile t' path = .ok s := by
  obtain ⟨t₁, hdirectories, hwrite⟩ := FileTree.exists_writeText hpath
  obtain ⟨t', ht'⟩ := hwrite (String.ofList s.tomlChars)
  refine ⟨t', ?_, Settings.ofFile_writeText hvalid hjobs ht'⟩
  rw [Settings.toFile, hdirectories]
  simp only [Settings.toToml_eq_ok hjobs, ht']

/-- Operators that need every notation of strings, an empty list of keywords, and the largest
    number of workers. -/
theorem saved_settings_with_quotes :
    ∃ t', Settings.toFile (.empty ["work"]) "saved/deep/muncht.toml"
        ⟨true, ⟨.json, some 9223372036854775807⟩,
          ⟨[], ["+", "\\\"", "'", "'\"", "'\\", "'''\"\"\"", "\x01\x7f", "→", "+"]⟩⟩ =
          (t', .ok ()) ∧
      Settings.ofFile t' "saved/deep/muncht.toml" =
        .ok ⟨true, ⟨.json, some 9223372036854775807⟩,
          ⟨[], ["+", "\\\"", "'", "'\"", "'\\", "'''\"\"\"", "\x01\x7f", "→", "+"]⟩⟩ := by
  refine saved_settings_are_loaded (by decide +kernel) ?_ (by decide +kernel)
  rintro n ⟨⟩
  decide

end Lexis
