import Lexis.Proofs.Scan.Lexeme
import Lexis.Proofs.Source.Places
import Mathlib.Data.List.Chain

/-!
  Lexis.Proofs.Layout

  The grammar of texts. A layout is a way to write a text as lexemes with white space before,
  between and after them; it is valid when two lexemes that touch can be told apart by a reader
  that never looks ahead. The tokens of a layout are its lexemes with the places where they stand.

  Nothing here mentions the scan. A layout is determined by its text and its tokens
  (`eq_of_tokens_eq`), and it grows at its end: by a blank, or by a lexeme that the last one admits
  (`Valid.push`).
-/

namespace Lexis

/-- A lexeme with the white space before it. -/
structure Piece where
  gap : String
  value : String
  kind : TokenKind
deriving DecidableEq

namespace Piece

/-- The characters of a piece. -/
def chars (x : Piece) : List Char := x.gap.toList ++ x.value.toList

/-- The lexeme of a piece, without its place. -/
def label (x : Piece) : String × TokenKind := (x.value, x.kind)

/-- The token of a piece that begins at a position. -/
def token (p : Position) (x : Piece) : Token :=
  let q := p.after x.gap.toList
  ⟨x.value, x.kind, ⟨q.offset, q.offset + Text.byteLength x.value.toList, q.line, q.column⟩⟩

/-- A lexeme that begins with `c` can stand directly after `x`: one of the two is an operator, and
    two operators do not run together into the beginning of a longer one. -/
def Admits (v : Vocabulary) (x : Piece) (isOperator : Prop) (c : Char) : Prop :=
  (x.kind = .operator ∨ isOperator) ∧
    (x.kind = .operator → isOperator → ∀ o ∈ v.operators, ¬x.value.toList ++ [c] <+: o.toList)

/-- Two neighbours: if nothing stands between them, the first admits the second. -/
def Meets (v : Vocabulary) (x y : Piece) : Prop :=
  y.gap = "" → ∀ c, y.value.toList.head? = some c → x.Admits v (y.kind = .operator) c

end Piece

/-- A text as lexemes and white space. -/
structure Layout where
  /-- The lexemes in order. -/
  pieces : List Piece
  /-- The white space after the last of them. -/
  trail : String
deriving DecidableEq

namespace Layout

/-- The characters of a layout. -/
def chars (d : Layout) : List Char := d.pieces.flatMap Piece.chars ++ d.trail.toList

/-- The text of a layout. -/
def text (d : Layout) : String := String.ofList d.chars

/-- The lexemes of a layout, without their places. -/
def labels (d : Layout) : List (String × TokenKind) := d.pieces.map Piece.label

/-- The tokens of pieces of which the first begins at a position. -/
def tokensFrom (p : Position) : List Piece → List Token
  | [] => []
  | x :: xs => x.token p :: tokensFrom (p.after x.chars) xs

/-- The tokens of a layout. -/
def tokens (d : Layout) : List Token := tokensFrom .start d.pieces

/-- The white space is white space, the lexemes are lexemes, and neighbours can be told apart. -/
structure Valid (v : Vocabulary) (d : Layout) : Prop where
  gaps : ∀ x ∈ d.pieces, ∀ c ∈ x.gap.toList, Text.isBlank c = true
  trail : ∀ c ∈ d.trail.toList, Text.isBlank c = true
  lexemes : ∀ x ∈ d.pieces, v.IsLexeme x.value x.kind
  meets : d.pieces.IsChain (Piece.Meets v)

variable {v : Vocabulary} {d d' : Layout} {p : Position} {x : Piece} {xs ys : List Piece}

@[simp] theorem toList_text (d : Layout) : d.text.toList = d.chars := by simp [text]

/-! ## Tokens and their layout -/

theorem tokensFrom_append (p : Position) (xs ys : List Piece) :
    tokensFrom p (xs ++ ys) =
      tokensFrom p xs ++ tokensFrom (p.after (xs.flatMap Piece.chars)) ys := by
  induction xs generalizing p with
  | nil => rfl
  | cons x xs ih => simp [tokensFrom, ih, Position.after_append]

theorem map_label_tokensFrom (p : Position) (xs : List Piece) :
    (tokensFrom p xs).map Token.label = xs.map Piece.label := by
  induction xs generalizing p with
  | nil => rfl
  | cons x xs ih => simp [tokensFrom, ih, Token.label, Piece.token, Piece.label]

theorem map_value_tokensFrom (p : Position) (xs : List Piece) :
    (tokensFrom p xs).map Token.value = xs.map Piece.value := by
  induction xs generalizing p with
  | nil => rfl
  | cons x xs ih => simp [tokensFrom, ih, Piece.token]

theorem map_label_tokens (d : Layout) : d.tokens.map Token.label = d.labels :=
  map_label_tokensFrom .start d.pieces

/-- Two beginnings of one text with equally many bytes are equal. -/
theorem append_inj_of_byteLength {as bs as' bs' : List Char} (h : as ++ bs = as' ++ bs')
    (hl : Text.byteLength as = Text.byteLength as') : as = as' ∧ bs = bs' := by
  have has : as = as' := by
    -- Both are the first bytes of the text.
    have h₁ := Text.takeBytes?_append as bs
    rw [h, hl, Text.takeBytes?_append] at h₁
    exact (Option.some.inj h₁).symm
  subst has
  exact ⟨rfl, List.append_cancel_left h⟩

theorem pieces_eq_of_tokensFrom_eq {trail trail' : String}
    (ht : tokensFrom p xs = tokensFrom p ys)
    (hc : xs.flatMap Piece.chars ++ trail.toList = ys.flatMap Piece.chars ++ trail'.toList) :
    xs = ys ∧ trail = trail' := by
  induction xs generalizing ys p with
  | nil =>
    cases ys with
    | nil => exact ⟨rfl, String.toList_inj.mp (by simpa using hc)⟩
    | cons y ys => simp [tokensFrom] at ht
  | cons x xs ih =>
    cases ys with
    | nil => simp [tokensFrom] at ht
    | cons y ys =>
      simp only [tokensFrom, List.cons.injEq, Piece.token, Token.mk.injEq, Span.mk.injEq,
        Position.after_offset] at ht
      obtain ⟨⟨hvalue, hkind, hstart, -⟩, hrest⟩ := ht
      -- Tokens that start at the same byte have the same white space before them.
      simp only [List.flatMap_cons, Piece.chars, List.append_assoc] at hc
      obtain ⟨hgap, hc⟩ := append_inj_of_byteLength hc (Nat.add_left_cancel hstart)
      obtain rfl : x = y := by
        cases x
        cases y
        simp_all [String.toList_inj]
      obtain ⟨rfl, rfl⟩ := ih hrest (List.append_cancel_left hc)
      exact ⟨rfl, rfl⟩

/-- A layout is determined by its text and its tokens. -/
theorem eq_of_tokens_eq (ht : d.tokens = d'.tokens) (hc : d.chars = d'.chars) : d = d' := by
  obtain ⟨h₁, h₂⟩ := pieces_eq_of_tokensFrom_eq ht hc
  cases d
  cases d'
  simp_all

/-! ## Growth at the end -/

/-- One more blank. -/
def blank (d : Layout) (c : Char) : Layout := ⟨d.pieces, d.trail.push c⟩

/-- One more lexeme, after all that is there. -/
def push (d : Layout) (value : String) (kind : TokenKind) : Layout :=
  ⟨d.pieces ++ [⟨d.trail, value, kind⟩], ""⟩

/-- The last lexeme, empty if there is none. -/
def lastValue (d : Layout) : String := (d.pieces.getLast?.map Piece.value).getD ""

/-- A lexeme that begins with `c` can come next. -/
def Admits (v : Vocabulary) (d : Layout) (isOperator : Prop) (c : Char) : Prop :=
  d.trail = "" → ∀ x, d.pieces.getLast? = some x → x.Admits v isOperator c

variable {c : Char} {value : String} {kind : TokenKind}

@[simp] theorem chars_blank (d : Layout) (c : Char) : (d.blank c).chars = d.chars ++ [c] := by
  simp [chars, blank]

@[simp] theorem chars_push (d : Layout) (value : String) (kind : TokenKind) :
    (d.push value kind).chars = d.chars ++ value.toList := by
  simp [chars, push, Piece.chars]

theorem tokens_push (d : Layout) (value : String) (kind : TokenKind) :
    (d.push value kind).tokens = d.tokens ++ [⟨value, kind,
      ⟨(Position.start.after d.chars).offset,
        (Position.start.after d.chars).offset + Text.byteLength value.toList,
        (Position.start.after d.chars).line, (Position.start.after d.chars).column⟩⟩] := by
  rw [tokens, push, tokensFrom_append]
  simp only [tokensFrom, Piece.token, ← Position.after_append]
  rfl

theorem lastValue_eq (d : Layout) :
    d.lastValue = (d.tokens.getLast?.map Token.value).getD "" := by
  rw [← List.getLast?_map, tokens, map_value_tokensFrom, List.getLast?_map]
  rfl

@[simp] theorem lastValue_push (d : Layout) (value : String) (kind : TokenKind) :
    (d.push value kind).lastValue = value := by
  simp [lastValue, push]

theorem valid_empty (v : Vocabulary) : Valid v ⟨[], ""⟩ := ⟨by simp, by simp, by simp, .nil⟩

theorem Valid.blank (h : d.Valid v) (hc : Text.isBlank c = true) : (d.blank c).Valid v where
  gaps := h.gaps
  trail := by
    intro b hb
    rw [Layout.blank, String.toList_push] at hb
    rcases List.mem_append.mp hb with hb | hb
    · exact h.trail b hb
    · obtain rfl : b = c := by simpa using hb
      exact hc
  lexemes := h.lexemes
  meets := h.meets

theorem Valid.push (h : d.Valid v) (hx : v.IsLexeme value kind)
    (ha : ∀ c, value.toList.head? = some c → d.Admits v (kind = .operator) c) :
    (d.push value kind).Valid v where
  gaps := by
    intro x hx
    rcases List.mem_append.mp hx with hx | hx
    · exact h.gaps x hx
    · obtain rfl : x = ⟨d.trail, value, kind⟩ := by simpa using hx
      exact h.trail
  trail := by simp [Layout.push]
  lexemes := by
    intro y hy
    rcases List.mem_append.mp hy with hy | hy
    · exact h.lexemes y hy
    · obtain rfl : y = ⟨d.trail, value, kind⟩ := by simpa using hy
      exact hx
  meets := by
    -- The only new pair of neighbours is the last lexeme and the new one.
    refine h.meets.append (.singleton _) ?_
    intro x hx y hy
    obtain rfl : ⟨d.trail, value, kind⟩ = y := by simpa using hy
    intro hgap c hc
    exact ha c hc hgap x hx

/-- A layout without its last lexeme is valid and admits the lexeme. -/
theorem Valid.of_concat {trail : String} (h : Valid v ⟨xs ++ [x], trail⟩) :
    Valid v ⟨xs, x.gap⟩ ∧
      ∀ c, x.value.toList.head? = some c → Admits v ⟨xs, x.gap⟩ (x.kind = .operator) c := by
  obtain ⟨hxs, -, hlast⟩ := List.isChain_append.mp h.meets
  refine ⟨⟨fun y hy => h.gaps y (by simp [hy]), h.gaps x (by simp),
    fun y hy => h.lexemes y (by simp [hy]), hxs⟩, ?_⟩
  intro c hc hgap y hy
  exact hlast y hy x (by simp) hgap c hc

end Layout

end Lexis
