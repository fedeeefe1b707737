import Lexis.Json.Basic
import Lexis.Token

/-!
  Lexis.Token.Json

  Tokens as JSON: an object with value, kind and span, the span an object with its four numbers.
  Arrays that give the fields by position are read as well.
-/

namespace Lexis

namespace Span

/-- The number of byte offsets. -/
def offsetLimit : Nat := Word.limit

/-- The number of line and column numbers. -/
def lineLimit : Nat := Nat.pow 2 32

/-- A span as JSON. -/
def toJson (s : Span) : Json :=
  .object [("start", .ofNat s.start), ("end", .ofNat s.stop), ("line", .ofNat s.line),
    ("column", .ofNat s.column)]

/-- The span that a JSON value describes. Other fields are ignored. -/
def ofJson? (v : Json) : Option Span :=
  match v.record? ["start", "end", "line", "column"] with
  | some [some start, some stop, some line, some column] => do
    return ⟨← start.natBelow? offsetLimit, ← stop.natBelow? offsetLimit,
      ← line.natBelow? lineLimit, ← column.natBelow? lineLimit⟩
  | _ => none

end Span

namespace Token

/-- A token as JSON. -/
def toJson (t : Token) : Json :=
  .object [("value", .string t.value), ("kind", .string t.kind.name), ("span", t.span.toJson)]

/-- The token that a JSON value describes. Other fields are ignored. -/
def ofJson? (v : Json) : Option Token :=
  match v.record? ["value", "kind", "span"] with
  | some [some value, some kind, some span] => do
    return ⟨← value.string?, ← kind.choice?.bind TokenKind.ofName?, ← Span.ofJson? span⟩
  | _ => none

end Token

end Lexis
