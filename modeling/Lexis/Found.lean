import Lexis.Text.Escape

/-!
  Lexis.Found

  What a reader was looking at when it gave up: a character, or the end of the input.
-/

namespace Lexis

/-- The input at a point of failure. -/
inductive Found where
  | char (c : Char)
  | endOfInput
deriving DecidableEq

namespace Found

/-- The words for an input inside a message. -/
def text : Found → String
  | .char c => Text.quoteChar c
  | .endOfInput => "end of input"

/-- The character, unless the input had ended. -/
def char? : Found → Option Char
  | .char c => some c
  | .endOfInput => none

end Found

end Lexis
