import Lexis.Cursor

/-!
  Lexis.ByteCursor

  A cursor that keeps the whole text, a byte offset into it and two counters of 32 bits. It holds no
  rest of the text: the character at hand is decoded anew from the bytes at the offset whenever it is
  asked for, and an offset inside a character would look like the end of the text.
-/

namespace Lexis

/-- A byte offset into a text, with the line and column that belong to it. -/
structure ByteCursor where
  /-- The whole text. -/
  source : String
  /-- Bytes before the character at hand. -/
  offset : Nat
  /-- Line, from one. -/
  line : UInt32
  /-- Column in characters, from one. -/
  column : UInt32
deriving DecidableEq

namespace ByteCursor

/-- The cursor at the beginning of a text. -/
def ofText (text : String) : ByteCursor := ⟨text, 0, 1, 1⟩

/-- The character at hand. There is none at the end, and none where the offset is no character
    boundary of the text. A byte below 128 is a character by itself; any other is the first of
    several, which are decoded together. -/
def current? (c : ByteCursor) : Option Char :=
  if String.Pos.Raw.isValid c.source ⟨c.offset⟩ then
    match c.source.toByteArray[c.offset]? with
    | some b =>
      if b < 128 then some (Char.ofUInt8 b) else c.source.toByteArray.utf8DecodeChar? c.offset
    | none => c.source.toByteArray.utf8DecodeChar? c.offset
  else none

/-- The line and column after a character, if the counter that grows still fits. -/
def counters (c : ByteCursor) (ch : Char) : Except Word.Overflow (UInt32 × UInt32) :=
  if ch = '\n' then (Word.increment c.line).map fun line => (line, 1)
  else (Word.increment c.column).map fun column => (c.line, column)

/-- Move past the character at hand; at the end nothing changes. -/
def advance (c : ByteCursor) : Except Word.Overflow ByteCursor :=
  match c.current? with
  | none => .ok c
  | some ch => (c.counters ch).map fun p => ⟨c.source, c.offset + ch.utf8Size, p.1, p.2⟩

/-- Move past `n` characters, or to the end if there are fewer. -/
def advanceBy : Nat → ByteCursor → Except Word.Overflow ByteCursor
  | 0, c => .ok c
  | n + 1, c => c.advance.bind (advanceBy n)

/-- The place of the cursor. -/
def position (c : ByteCursor) : Position := ⟨c.offset, c.line.toNat, c.column.toNat⟩

/-- The place of the cursor with the character at hand, which is all that a reader sees. -/
def view (c : ByteCursor) : Cursor := ⟨c.current?.toList, c.position⟩

/-- The span of the character at hand, empty at the end. -/
def span (c : ByteCursor) : Span := c.view.span

/-! ## Reading to the end -/

theorem offset_lt_of_current? {c : ByteCursor} {ch : Char} (h : c.current? = some ch) :
    c.offset < c.source.utf8ByteSize := by
  unfold current? at h
  split at h
  · split at h
    · rename_i b hb
      obtain ⟨hlt, -⟩ := getElem?_eq_some_iff.mp hb
      exact hlt
    · exact ByteArray.lt_size_of_isSome_utf8DecodeChar? (by simp [h])
  · cases h

theorem of_advance {c next : ByteCursor} {ch : Char} (h : c.current? = some ch)
    (hnext : c.advance = .ok next) :
    next.source = c.source ∧ next.offset = c.offset + ch.utf8Size := by
  rw [advance, h] at hnext
  cases hc : c.counters ch with
  | error e => simp [hc, Except.map] at hnext
  | ok p =>
    obtain rfl : ⟨c.source, c.offset + ch.utf8Size, p.1, p.2⟩ = next := by
      simpa [hc, Except.map] using hnext
    exact ⟨rfl, rfl⟩

/-- Hand the characters from the cursor on to `body`, one after another, which goes on with a new
    state or ends the loop with a result. At the end of the text `finish` gives the result. -/
def loop {σ ρ : Type} (body : σ → ByteCursor → Char → Except ρ σ) (finish : σ → ByteCursor → ρ)
    (c : ByteCursor) (s : σ) : Except Word.Overflow ρ :=
  match _hc : c.current? with
  | none => .ok (finish s c)
  | some ch =>
    match body s c ch with
    | .error r => .ok r
    | .ok s =>
      match _hnext : c.advance with
      | .error e => .error e
      | .ok next => loop body finish next s
termination_by c.source.utf8ByteSize - c.offset
decreasing_by
  -- The character that was read has at least one byte, and it lay inside the text.
  have hlt := offset_lt_of_current? _hc
  have hpos := ch.utf8Size_pos
  obtain ⟨hsource, hoffset⟩ := of_advance _hc _hnext
  rw [hsource, hoffset]
  omega

end ByteCursor

end Lexis
