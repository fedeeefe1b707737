import Lexis.Trie
import Lexis.Vocabulary

/-!
  Lexis.Lexicon

  A vocabulary made ready for scanning: its operator characters and the prefix trees of its two
  lists.
-/

namespace Lexis

/-- A compiled vocabulary. -/
structure Lexicon where
  classifier : Classifier
  keywords : Trie
  operators : Trie
deriving DecidableEq

namespace Lexicon

/-- A trie that cannot be built has an empty entry. -/
def emptyEntry (list : WordList) : Trie.BuildError → VocabularyError
  | .emptyWord index => .emptyEntry list index

/-- Compile a usable vocabulary. -/
def compile (v : Vocabulary) : Except VocabularyError Lexicon := do
  v.validate
  let keywords ← (Trie.build v.keywords).mapError (emptyEntry .keywords)
  let operators ← (Trie.build v.operators).mapError (emptyEntry .operators)
  return ⟨Classifier.ofOperators v.operators, keywords, operators⟩

/-- The class of a character. -/
def classify (lx : Lexicon) (c : Char) : CharClass := lx.classifier.classify c

end Lexicon

end Lexis
