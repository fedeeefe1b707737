import Lexis.Json.Basic
import Lexis.Vocabulary

/-!
  Lexis.Vocabulary.Json

  Vocabularies as JSON: an object with a keyword list and an operator list. An array of the two
  lists is read as well.
-/

namespace Lexis.Vocabulary

/-- A vocabulary as JSON. -/
def toJson (v : Vocabulary) : Json :=
  .object [("keywords", .ofStrings v.keywords), ("operators", .ofStrings v.operators)]

/-- The vocabulary that a JSON value describes: a missing list is the built-in one, an empty list
    is kept, other fields are ignored. -/
def ofJson? (v : Json) : Option Vocabulary :=
  match v.record? ["keywords", "operators"] with
  | some [keywords, operators] => do
    return ⟨← Json.fieldOr defaultKeywords Json.strings? keywords,
      ← Json.fieldOr defaultOperators Json.strings? operators⟩
  | _ => none

end Lexis.Vocabulary
