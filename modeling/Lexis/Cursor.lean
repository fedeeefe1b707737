import Lexis.Span
import Lexis.Text.Bytes

/-!
  Lexis.Cursor

  Reading a text one character at a time while keeping the place of the character at hand.
-/

namespace Lexis

/-- A place in a text together with the text that follows it. -/
structure Cursor where
  /-- The text not yet passed. -/
  rest : List Char
  /-- Where the rest begins. -/
  position : Position
deriving DecidableEq

namespace Cursor

/-- The cursor at the beginning of a text. -/
def ofText (text : String) : Cursor := ⟨text.toList, .start⟩

/-- The character at hand; there is none at the end. -/
def current? (c : Cursor) : Option Char := c.rest.head?

/-- Move past the character at hand; at the end nothing changes. -/
def advance (c : Cursor) : Cursor :=
  match c.rest with
  | [] => c
  | ch :: rest => ⟨rest, c.position.advance ch⟩

/-- Move past `n` characters, or to the end if there are fewer. -/
def advanceBy : Nat → Cursor → Cursor
  | 0, c => c
  | n + 1, c => advanceBy n c.advance

/-- The span of the character at hand, empty at the end. -/
def span (c : Cursor) : Span :=
  let width := (c.current?.map Char.utf8Size).getD 0
  ⟨c.position.offset, c.position.offset + width, c.position.line, c.position.column⟩

@[simp] theorem advance_nil (p : Position) : advance ⟨[], p⟩ = ⟨[], p⟩ := rfl

@[simp] theorem advance_cons (ch : Char) (rest : List Char) (p : Position) :
    advance ⟨ch :: rest, p⟩ = ⟨rest, p.advance ch⟩ := rfl

@[simp] theorem span_nil (p : Position) : span ⟨[], p⟩ = Span.point p := rfl

end Cursor

end Lexis
