import Lexis.Text.Blank

/-!
  Lexis.CharClass

  What a single character is to the tokenizer. White space, ASCII letters, ASCII digits and the
  decimal point are fixed; every other character is an operator character if some operator of the
  vocabulary contains it, and unknown otherwise.
-/

namespace Lexis

/-- The class of a character. -/
inductive CharClass where
  | whitespace
  | letter
  | digit
  | dot
  | operator
  | unknown
deriving DecidableEq

namespace CharClass

/-- An ASCII letter. -/
def isLetter (c : Char) : Bool :=
  ('a' ≤ c && c ≤ 'z') || ('A' ≤ c && c ≤ 'Z')

/-- An ASCII digit. -/
def isDigit (c : Char) : Bool :=
  '0' ≤ c && c ≤ '9'

/-- The classes that no vocabulary can change. -/
def fixed? (c : Char) : Option CharClass :=
  if Text.isBlank c then some .whitespace
  else if isLetter c then some .letter
  else if isDigit c then some .digit
  else if c = '.' then some .dot
  else none

/-- The identifier of a class. -/
def name : CharClass → String
  | .whitespace => "whitespace"
  | .letter => "letter"
  | .digit => "digit"
  | .dot => "dot"
  | .operator => "operator"
  | .unknown => "unknown"

/-- The words for a class inside a message. -/
def describe : CharClass → String
  | .dot => "decimal point"
  | k => k.name

end CharClass

/-- The operator characters of a vocabulary. -/
structure Classifier where
  /-- Each operator character once, in the order of first occurrence. -/
  operatorChars : List Char
deriving DecidableEq

namespace Classifier

/-- Collect the characters of every operator. -/
def ofOperators (operators : List String) : Classifier :=
  ⟨(operators.flatMap String.toList).eraseDups⟩

/-- The class of a character: the fixed one if it has one, else by membership. -/
def classify (k : Classifier) (c : Char) : CharClass :=
  match CharClass.fixed? c with
  | some cls => cls
  | none => if k.operatorChars.contains c then .operator else .unknown

end Classifier

end Lexis
