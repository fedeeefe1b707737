import Lexis.Text.Unprintable
import Lexis.Text.Extender

/-!
  Lexis.Text.Escape

  How a character or a text is shown inside a message: quoted, with a backslash escape for every
  character that could not be read off the page.
-/

namespace Lexis.Text

/-- A character as its code point, `\u{301}`: lower-case hexadecimal without padding. -/
def codeEscape (c : Char) : List Char :=
  ['\\', 'u', '\x7b'] ++ Nat.toDigits 16 c.toNat ++ ['\x7d']

/-- The shown form of one character. Five characters have a short escape, a character of `quotes`
    is preceded by a backslash, and one that is unprintable or attaches to its neighbour is given
    as its code point. -/
def escapeChar (quotes : List Char) (c : Char) : List Char :=
  if c = '\x00' then ['\\', '0']
  else if c = '\t' then ['\\', 't']
  else if c = '\r' then ['\\', 'r']
  else if c = '\n' then ['\\', 'n']
  else if c = '\\' || quotes.contains c then ['\\', c]
  else if isExtender c || !isPrintable c then codeEscape c
  else [c]

/-- A character between single quotes; both kinds of quote are escaped. -/
def quoteChar (c : Char) : String :=
  String.ofList ('\'' :: escapeChar ['\'', '"'] c ++ ['\''])

/-- A text between double quotes; single quotes stand as they are. -/
def quoteText (s : String) : String :=
  String.ofList ('"' :: s.toList.flatMap (escapeChar ['"']) ++ ['"'])

end Lexis.Text
