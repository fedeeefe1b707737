import Lexis.Log.Event
import Lexis.Source

/-!
  Lexis.Report.Excerpt

  The source line of a problem with carets under the offending text.
-/

namespace Lexis.Excerpt

/-- The blank text in front of a column: tabs stay tabs, so that the carets line up. -/
def padding (line : String) (column : Nat) : List Char :=
  (line.toList.take (column - 1)).map fun c => if c = '\t' then '\t' else ' '

/-- The number of carets: the characters of the span without a line break at its end, and one at
    the end of the input or where the span does not lie in the text. -/
def width (source : Source) (span : Span) : Nat :=
  match source.snippet span with
  | .ok text => max 1 (Text.dropTrailing Text.isLineBreak text.toList).length
  | .error _ => 1

/-- The excerpt: an empty gutter line, the source line with its number, and the carets. -/
def text (source : Source) (span : Span) : String :=
  let number := toString span.line
  let gutter := String.ofList (List.replicate number.length ' ')
  let line := (source.lineOf span).getD ""
  gutter ++ " |\n" ++ number ++ " | " ++ line ++ "\n" ++ gutter ++ " | " ++
    String.ofList (padding line span.column) ++
    String.ofList (List.replicate (width source span) '^')

/-- The log of making an excerpt: a span that does not lie in the text is reported. -/
def records (source : Source) (span : Span) : List Log.Record :=
  match source.snippet span with
  | .ok _ => []
  | .error e => [.logged none (.spanOutsideSource span e)]

end Lexis.Excerpt
