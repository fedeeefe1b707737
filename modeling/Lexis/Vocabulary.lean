import Lexis.CharClass
import Lexis.Found

/-!
  Lexis.Vocabulary

  The keyword and operator lists of a user. A vocabulary is usable when the tokenizer can produce
  each of its entries: keywords are runs of ASCII letters, and operators hold no character of a
  fixed class.
-/

namespace Lexis

/-- The two lists, in the order and with the repetitions in which they were given. -/
structure Vocabulary where
  keywords : List String
  operators : List String
deriving DecidableEq

/-- One of the two lists. -/
inductive WordList where
  | keywords
  | operators
deriving DecidableEq

/-- The word for an entry of a list. -/
def WordList.entryName : WordList → String
  | .keywords => "keyword"
  | .operators => "operator"

/-- Why a vocabulary is not usable. -/
inductive VocabularyError where
  /-- An entry without characters. -/
  | emptyEntry (list : WordList) (index : Nat)
  /-- A keyword with something other than a letter in it. -/
  | invalidKeyword (keyword : String) (found : Found)
  /-- An operator with a character that is read as something else. -/
  | unreachableOperator (operator : String) (found : Found) (cls : CharClass)
deriving DecidableEq

namespace VocabularyError

/-- The text of a vocabulary error. -/
def message : VocabularyError → String
  | .emptyEntry list index => s!"empty {list.entryName} at index {index}"
  | .invalidKeyword keyword found =>
    s!"keyword \"{keyword}\" contains {found.text}; keywords may only contain ASCII letters"
  | .unreachableOperator operator found cls =>
    s!"operator \"{operator}\" contains {found.text}, which is read as a {cls.describe} " ++
      "and can never be part of an operator"

end VocabularyError

namespace Vocabulary

/-- The keywords of a vocabulary that nobody configured. -/
def defaultKeywords : List String :=
  ["if", "else", "while", "for", "in", "return", "fn", "let", "const", "true", "false", "and",
   "or", "not", "break", "continue"]

/-- The operators of a vocabulary that nobody configured. -/
def defaultOperators : List String :=
  ["=", "==", "!=", "<", "<=", ">", ">=", "+", "-", "*", "/", "%", "+=", "-=", "*=", "/=", "->",
   "&&", "||", "!", "(", ")", "\x7b", "\x7d", "[", "]", ",", ";", ":"]

/-- The vocabulary that nobody configured. -/
def builtIn : Vocabulary := ⟨defaultKeywords, defaultOperators⟩

/-! ## Validation -/

/-- What is wrong with a keyword: it is empty, or its first character that is no letter. -/
def keywordFault? (keyword : String) (index : Nat) : Option VocabularyError :=
  if keyword.isEmpty then some (.emptyEntry .keywords index)
  else (keyword.toList.find? fun c => !CharClass.isLetter c).map fun c =>
    .invalidKeyword keyword (.char c)

/-- What is wrong with an operator: it is empty, or its first character of a fixed class. -/
def operatorFault? (operator : String) (index : Nat) : Option VocabularyError :=
  if operator.isEmpty then some (.emptyEntry .operators index)
  else operator.toList.findSome? fun c =>
    (CharClass.fixed? c).map fun cls => .unreachableOperator operator (.char c) cls

/-- The first thing wrong with a vocabulary; keywords come before operators. -/
def fault? (v : Vocabulary) : Option VocabularyError :=
  (v.keywords.zipIdx.findSome? fun p => keywordFault? p.1 p.2).or
    (v.operators.zipIdx.findSome? fun p => operatorFault? p.1 p.2)

/-- Accept a usable vocabulary. -/
def validate (v : Vocabulary) : Except VocabularyError Unit :=
  match v.fault? with
  | some e => .error e
  | none => .ok ()

end Vocabulary

/-! ## Overrides -/

/-- Lists given for one run, each of which replaces the configured list. -/
structure Overrides where
  keywords : Option (List String)
  operators : Option (List String)
deriving DecidableEq

namespace Overrides

/-- No list is replaced. -/
def none : Overrides := ⟨.none, .none⟩

/-- The entries of a given list: runs of spaces leave empty pieces, which do not count. -/
def entries (pieces : List String) : List String := pieces.filter fun s => !s.isEmpty

/-- A vocabulary with the given lists in place of its own. -/
def apply (o : Overrides) (base : Vocabulary) : Vocabulary :=
  ⟨(o.keywords.map entries).getD base.keywords, (o.operators.map entries).getD base.operators⟩

end Overrides

end Lexis
