import Lexis.Search
import Lexis.Span
import Lexis.Text.Blank
import Lexis.Text.Bytes
import Lexis.Text.Escape

/-!
  Lexis.Source

  A named text and its line table: from byte offsets to lines and columns, single lines without
  their terminator, and the text that a span covers.
-/

namespace Lexis

/-- A text with the name under which it is reported. -/
structure Source where
  /-- Display name. -/
  name : String
  /-- The text. -/
  content : String
deriving DecidableEq

/-- Why a span does not cover a piece of a text. -/
inductive SliceError where
  /-- The span ends before it starts. -/
  | invalidRange (start stop : Nat)
  /-- The span reaches beyond the text. -/
  | outOfBounds (size start stop : Nat)
  /-- An end of the span lies inside a character. -/
  | notBoundary (start stop : Nat)
deriving DecidableEq

namespace SliceError

/-- The text of a slice error. -/
def message : SliceError → String
  | .invalidRange start stop => s!"Invalid range: start {start} > end {stop}"
  | .outOfBounds size start stop =>
    s!"Range out of bounds: file has {size} bytes, range is {start}..{stop}"
  | .notBoundary start stop => s!"Range {start}..{stop} is not on character boundaries"

end SliceError

namespace Source

/-- The characters of the text. -/
def chars (s : Source) : List Char := s.content.toList

/-- Number of bytes of the text. -/
def size (s : Source) : Nat := Text.byteLength s.chars

/-! ## The line table -/

/-- The offset of the first byte of every line: zero, and the byte after each `\n`. -/
def lineStarts (s : Source) : List Nat :=
  0 :: (Text.charOffsets 0 s.chars).filterMap fun p => if p.2 = '\n' then some (p.1 + 1) else none

/-- A text has one line more than it has line ends. -/
def lineCount (s : Source) : Nat := s.lineStarts.length

/-- The line and column of an offset; an offset beyond the text stands for its end. The line is
    the last one that begins at or before the offset, and the column counts the characters of
    that line that begin before the offset. -/
def lineCol (s : Source) (offset : Nat) : Nat × Nat :=
  let offset := min offset s.size
  let begun := s.lineStarts.takeWhile (· ≤ offset)
  let lineStart := begun.getLast?.getD 0
  let before := ((Text.charOffsets 0 s.chars).dropWhile (·.1 < lineStart)).takeWhile (·.1 < offset)
  (begun.length, before.length + 1)

/-- The index of the line on which an offset lies, by a search in the line table: an offset that is
    no line start lies on the line before the one that it could start. -/
def lineIndex (s : Source) (offset : Nat) : Nat :=
  match Search.binary s.lineStarts.toArray offset with
  | .found index => index
  | .absent index => index - 1

/-- The line and column of an offset, looked up in the line table and counted in the text from the
    line start on. There is no answer if the line is not in the table or does not start between two
    characters. -/
def locate? (s : Source) (offset : Nat) : Option (Nat × Nat) := do
  let offset := min offset s.size
  let line := s.lineIndex offset
  let lineStart ← s.lineStarts[line]?
  let text ← Text.dropBytes? lineStart s.chars
  let before := (Text.charOffsets 0 text).takeWhile fun p => lineStart + p.1 < offset
  return (line + 1, before.length + 1)

/-- A line by number, without the line breaks at its end. -/
def lineAt (s : Source) (line : Nat) : Option String :=
  match line with
  | 0 => none
  | k + 1 => do
    let start ← s.lineStarts[k]?
    let stop := s.lineStarts[k + 1]?.getD s.size
    let text ← Text.slice? s.chars start stop
    return String.ofList (Text.dropTrailing Text.isLineBreak text)

/-- The line on which a span begins. -/
def lineOf (s : Source) (span : Span) : Option String :=
  s.lineAt (s.lineCol span.start).1

/-! ## Pieces of the text -/

/-- The text that a span covers. -/
def snippet (s : Source) (span : Span) : Except SliceError String :=
  if span.start > span.stop then .error (.invalidRange span.start span.stop)
  else if span.stop > s.size then .error (.outOfBounds s.size span.start span.stop)
  else
    match Text.slice? s.chars span.start span.stop with
    | some text => .ok (String.ofList text)
    | none => .error (.notBoundary span.start span.stop)

/-- One-line description of a source: its quoted name and its number of lines. -/
def describe (s : Source) : String :=
  "SourceFile \x7b name: " ++ Text.quoteText s.name ++ s!", line_count: {s.lineCount} \x7d"

end Source

end Lexis
