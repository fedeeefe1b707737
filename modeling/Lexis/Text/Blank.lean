import Lexis.Text.CodeRange

/-!
  Lexis.Text.Blank

  White space: the property White_Space of the Unicode standard, and the removal of trailing
  blanks from a text.
-/

namespace Lexis.Text

/-- The ranges of the white space characters. -/
def blankRanges : List CodeRange :=
  [(0x09, 0x0D), (0x20, 0x20), (0x85, 0x85), (0xA0, 0xA0), (0x1680, 0x1680), (0x2000, 0x200A),
   (0x2028, 0x2029), (0x202F, 0x202F), (0x205F, 0x205F), (0x3000, 0x3000)]

/-- White space separates tokens and has no other meaning. -/
def isBlank (c : Char) : Bool :=
  CodeRange.covers blankRanges c

/-- Remove the longest suffix whose characters all satisfy `p`. -/
def dropTrailing (p : Char → Bool) (cs : List Char) : List Char :=
  (cs.reverse.dropWhile p).reverse

/-- A text without its trailing white space. -/
def trimTrailing (s : String) : String :=
  String.ofList (dropTrailing isBlank s.toList)

/-- The two characters a line terminator is made of. -/
def isLineBreak (c : Char) : Bool :=
  c = '\n' || c = '\r'

end Lexis.Text
