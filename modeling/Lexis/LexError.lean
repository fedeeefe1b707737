import Lexis.CharClass
import Lexis.Found
import Lexis.Span

/-!
  Lexis.LexError

  The first fatal problem of a text: its cause, the input that showed it, the lexeme most recently
  begun, and the place.
-/

namespace Lexis

/-- What is wrong with a number. -/
inductive NumberDefect where
  /-- No digit follows the decimal point. -/
  | missingFraction
  /-- A second decimal point in one number. -/
  | secondDecimalPoint
deriving DecidableEq

/-- The words for a number defect. -/
def NumberDefect.text : NumberDefect → String
  | .missingFraction => "expected a digit after the decimal point"
  | .secondDecimalPoint => "a number literal may contain only one decimal point"

/-- What is wrong with a sequence of operator characters. -/
inductive OperatorDefect where
  /-- The characters begin an operator but are none, and the input does not go on with one. -/
  | incomplete
  /-- No operator begins with the character. -/
  | noOperatorStartsWith
deriving DecidableEq

/-- What a scan is in the middle of. -/
inductive Phase where
  | readingSpaces
  | keyword
  | word
  | number
  | expectingDigit
  | operator
deriving DecidableEq

/-- The name of a phase in messages. -/
def Phase.name : Phase → String
  | .readingSpaces => "reading-spaces"
  | .keyword => "keyword"
  | .word => "word"
  | .number => "number"
  | .expectingDigit => "expecting-digit"
  | .operator => "operator"

/-- Why a scan stopped. -/
inductive LexFault where
  /-- A character of no class. -/
  | unclassifiableCharacter
  /-- A number that is not well formed. -/
  | malformedNumber (defect : NumberDefect)
  /-- Operator characters that form no operator. -/
  | invalidOperator (defect : OperatorDefect)
  /-- A character of a known class where that class cannot stand. -/
  | unexpectedCharacter (cls : CharClass)
  /-- A scan state that contradicts itself. -/
  | unexpectedState (phase : Phase)
deriving DecidableEq

/-- The stable code of a fault. -/
def LexFault.code : LexFault → String
  | .unclassifiableCharacter => "L0001"
  | .malformedNumber _ => "L0002"
  | .invalidOperator _ => "L0003"
  | .unexpectedCharacter _ => "L0004"
  | .unexpectedState _ => "L0005"

/-- A fatal problem of a text. -/
structure LexError where
  /-- The cause. -/
  fault : LexFault
  /-- The input at hand. -/
  found : Found
  /-- The lexeme most recently begun, empty if there was none. -/
  context : String
  /-- The place of the input at hand, empty at the end. -/
  span : Span
deriving DecidableEq

namespace LexError

/-- The stable code of an error. -/
def code (e : LexError) : String := e.fault.code

/-- The text of an error. -/
def message (e : LexError) : String :=
  match e.fault with
  | .unclassifiableCharacter =>
    s!"unclassifiable character {e.found.text} after \"{e.context}\""
  | .malformedNumber defect =>
    s!"malformed number literal \"{e.context}\": {defect.text}, found {e.found.text}"
  | .invalidOperator .incomplete =>
    s!"\"{e.context}\" is not a valid operator (followed by {e.found.text})"
  | .invalidOperator .noOperatorStartsWith => s!"no operator starts with {e.found.text}"
  | .unexpectedCharacter cls =>
    s!"unexpected {cls.describe} {e.found.text} after \"{e.context}\""
  | .unexpectedState phase =>
    s!"internal lexer error: state `{phase.name}` cannot accept {e.found.text} " ++
      s!"(context \"{e.context}\")"

/-- The text is to blame, and not the scan itself. -/
def isInputError (e : LexError) : Bool :=
  match e.fault with
  | .unexpectedState _ => false
  | _ => true

end LexError

end Lexis
