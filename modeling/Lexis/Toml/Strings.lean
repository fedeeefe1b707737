import Lexis.Text.Reader

/-!
  Lexis.Toml.Strings

  The four notations of TOML strings, for reading: in double or single quotes, on one line or over
  several. A reader gets the text after the opening quotes and returns the contents and the rest.
-/

namespace Lexis.Toml

open Lexis.Text (Reader prepend hexDigit?)

/-- A blank within a line. -/
def isSpace (c : Char) : Bool := c = ' ' || c = '\t'

/-- A character that may stand in a comment or in a string: a tab, or anything that is no control
    character. -/
def isText (c : Char) : Bool := c = '\t' || (0x20 ≤ c.toNat && c.toNat ≠ 0x7F)

/-- The character with a code point, if it is one of a character. -/
def scalar? (n : Nat) : Option Char :=
  if n.isValidChar then some (Char.ofNat n) else none

/-- The character that a backslash and a letter stand for. -/
def shortEscape? (c : Char) : Option Char :=
  match c with
  | 'b' => some '\x08'
  | 't' => some '\t'
  | 'n' => some '\n'
  | 'f' => some '\x0c'
  | 'r' => some '\r'
  | '"' => some '"'
  | '\\' => some '\\'
  | _ => none

/-- What a reader of a string in double quotes is in the middle of. -/
inductive Pending where
  /-- Nothing. -/
  | none
  /-- An escape: the backslash has been read. -/
  | escape
  /-- A code point: so many digits are still to come, and this is the value so far. -/
  | hex (more : Nat) (value : Nat)
  /-- Blanks between a backslash and the end of its line. -/
  | lineEnd
  /-- Blanks and line ends after a backslash at the end of a line. -/
  | skip

/-- The contents of a string in double quotes on one line. -/
def basicBody : Pending → Reader (List Char)
  | _, [] => none
  | .escape, c :: cs =>
    if c = 'u' then basicBody (.hex 3 0) cs
    else if c = 'U' then basicBody (.hex 7 0) cs
    else match shortEscape? c with
      | some d => prepend d (basicBody .none cs)
      | none => none
  | .hex more value, c :: cs =>
    match hexDigit? c, more with
    | none, _ => none
    | some d, 0 =>
      match scalar? (16 * value + d) with
      | some e => prepend e (basicBody .none cs)
      | none => none
    | some d, more + 1 => basicBody (.hex more (16 * value + d)) cs
  | _, c :: cs =>
    if c = '"' then some ([], cs)
    else if c = '\\' then basicBody .escape cs
    else if isText c then prepend c (basicBody .none cs)
    else none

/-- The end of a string in triple quotes `q`: up to two further quotes belong to the contents. -/
def closeTriple (q : Char) (cs : List Char) : List Char × List Char :=
  match cs with
  | a :: b :: rest =>
    if a = q && b = q then ([q, q], rest) else if a = q then ([q], b :: rest) else ([], cs)
  | [a] => if a = q then ([q], []) else ([], cs)
  | [] => ([], [])

/-- The contents of a string in three double quotes. A line end stands for `\n`. -/
def multiBasicBody : Pending → Reader (List Char)
  | _, [] => none
  | .skip, '\r' :: '\n' :: cs => multiBasicBody .skip cs
  | .lineEnd, '\r' :: '\n' :: cs => multiBasicBody .skip cs
  | .escape, '\r' :: '\n' :: cs => multiBasicBody .skip cs
  | .none, '\r' :: '\n' :: cs => prepend '\n' (multiBasicBody .none cs)
  | .none, '"' :: '"' :: '"' :: cs => some (closeTriple '"' cs)
  | .skip, '"' :: '"' :: '"' :: cs => some (closeTriple '"' cs)
  | .lineEnd, c :: cs =>
    if c = '\n' then multiBasicBody .skip cs
    else if isSpace c then multiBasicBody .lineEnd cs
    else none
  | .escape, c :: cs =>
    if c = 'u' then multiBasicBody (.hex 3 0) cs
    else if c = 'U' then multiBasicBody (.hex 7 0) cs
    else if c = '\n' then multiBasicBody .skip cs
    else if isSpace c then multiBasicBody .lineEnd cs
    else match shortEscape? c with
      | some d => prepend d (multiBasicBody .none cs)
      | none => none
  | .hex more value, c :: cs =>
    match hexDigit? c, more with
    | none, _ => none
    | some d, 0 =>
      match scalar? (16 * value + d) with
      | some e => prepend e (multiBasicBody .none cs)
      | none => none
    | some d, more + 1 => multiBasicBody (.hex more (16 * value + d)) cs
  | .skip, c :: cs =>
    if c = '\n' || isSpace c then multiBasicBody .skip cs
    else if c = '\\' then multiBasicBody .escape cs
    else if isText c then prepend c (multiBasicBody .none cs)
    else none
  | .none, c :: cs =>
    if c = '\\' then multiBasicBody .escape cs
    else if c = '\n' || isText c then prepend c (multiBasicBody .none cs)
    else none

/-- The contents of a string in single quotes on one line. -/
def literalBody : Reader (List Char)
  | [] => none
  | c :: cs =>
    if c = '\'' then some ([], cs) else if isText c then prepend c (literalBody cs) else none

/-- The contents of a string in three single quotes. A line end stands for `\n`. -/
def multiLiteralBody : Reader (List Char)
  | '\r' :: '\n' :: cs => prepend '\n' (multiLiteralBody cs)
  | '\'' :: '\'' :: '\'' :: cs => some (closeTriple '\'' cs)
  | c :: cs => if c = '\n' || isText c then prepend c (multiLiteralBody cs) else none
  | [] => none

/-- A line end directly after opening triple quotes does not count. -/
def dropFirstNewline : List Char → List Char
  | '\n' :: cs => cs
  | '\r' :: '\n' :: cs => cs
  | cs => cs

/-- A string in any notation. -/
def string? : Reader (List Char)
  | '"' :: '"' :: '"' :: cs => multiBasicBody .none (dropFirstNewline cs)
  | '"' :: cs => basicBody .none cs
  | '\'' :: '\'' :: '\'' :: cs => multiLiteralBody (dropFirstNewline cs)
  | '\'' :: cs => literalBody cs
  | _ => none

/-- A string on one line, as it may serve for a key. -/
def lineString? : Reader (List Char)
  | '"' :: cs => basicBody .none cs
  | '\'' :: cs => literalBody cs
  | _ => none

end Lexis.Toml
