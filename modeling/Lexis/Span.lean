import Lexis.Word

/-!
  Lexis.Span

  Places in a text. A `Position` lies between two characters; a `Span` is a byte range that also
  remembers the line and column of its first character. Lines and columns count from one and
  columns count characters; only `\n` ends a line.
-/

namespace Lexis

/-- A place between two characters. -/
structure Position where
  /-- Bytes before this place. -/
  offset : Nat
  /-- Line, from one. -/
  line : Nat
  /-- Column in characters, from one. -/
  column : Nat
deriving DecidableEq

namespace Position

/-- The beginning of a text. -/
def start : Position := ⟨0, 1, 1⟩

/-- The place just after `c`, which stands at this place. -/
def advance (p : Position) (c : Char) : Position :=
  if c = '\n' then ⟨p.offset + c.utf8Size, p.line + 1, 1⟩
  else ⟨p.offset + c.utf8Size, p.line, p.column + 1⟩

@[simp] theorem advance_offset (p : Position) (c : Char) :
    (p.advance c).offset = p.offset + c.utf8Size := by
  unfold advance; split <;> rfl

end Position

/-- A byte range with the line and column of its first byte. -/
structure Span where
  /-- First byte. -/
  start : Nat
  /-- The byte after the last one. -/
  stop : Nat
  /-- Line of the first byte. -/
  line : Nat
  /-- Column of the first byte. -/
  column : Nat
deriving DecidableEq

namespace Span

/-- The span that stands for no place at all. -/
def dummy : Span := ⟨0, 0, 0, 0⟩

/-- The empty span at a place, used for the end of input. -/
def point (p : Position) : Span := ⟨p.offset, p.offset, p.line, p.column⟩

/-- A span is empty when it covers no bytes. -/
def isEmpty (s : Span) : Bool := s.start = s.stop

/-- Number of bytes covered; a span that ends before it starts has none. -/
def length (s : Span) : Except Word.Overflow Nat := Word.subtract s.stop s.start

/-- The same beginning with another end, which never precedes the beginning. -/
def withStop (s : Span) (stop : Nat) : Span := { s with stop := max stop s.start }

/-- A span is shown as the place where it begins, `line:column`. -/
def text (s : Span) : String := s!"{s.line}:{s.column}"

end Span

end Lexis
