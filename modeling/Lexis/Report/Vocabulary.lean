import Lexis.Json.Printer
import Lexis.Lexicon

/-!
  Lexis.Report.Vocabulary

  The vocabulary in force as it is shown to a user: distinct words in order, and the operator
  characters in the order in which they first occur.
-/

namespace Lexis

/-- The words and operator characters of a compiled vocabulary. -/
structure VocabularyReport where
  keywords : List String
  operators : List String
  operatorChars : List Char
deriving DecidableEq

namespace VocabularyReport

/-- Read the report off a lexicon. -/
def ofLexicon (lx : Lexicon) : VocabularyReport :=
  ⟨lx.keywords.words, lx.operators.words, lx.classifier.operatorChars⟩

/-- A labelled line: how many entries there are, and the entries. -/
def line (label : String) (entries : List String) : String :=
  s!"{label} ({entries.length}): " ++ " ".intercalate entries

/-- Three labelled lines. -/
def text (r : VocabularyReport) : String :=
  line "keywords" r.keywords ++ "\n" ++ line "operators" r.operators ++ "\n" ++
    line "operator characters" (r.operatorChars.map String.singleton)

/-- The report as JSON. -/
def toJson (r : VocabularyReport) : Json :=
  .object [("keywords", .ofStrings r.keywords), ("operators", .ofStrings r.operators),
    ("operator_chars", .ofStrings (r.operatorChars.map String.singleton))]

end VocabularyReport

end Lexis
