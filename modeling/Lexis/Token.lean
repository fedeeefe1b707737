import Lexis.Span

/-!
  Lexis.Token

  Tokens: a lexeme, what it was recognised as, and where it stands.
-/

namespace Lexis

/-- What a lexeme is. -/
inductive TokenKind where
  /-- A word of the keyword list. -/
  | keyword
  /-- Any other run of ASCII letters. -/
  | word
  /-- An operator of the vocabulary. -/
  | operator
  /-- A run of digits. -/
  | int
  /-- Digits, a decimal point, digits. -/
  | float
deriving DecidableEq

namespace TokenKind

/-- The name of a kind in all output. -/
def name : TokenKind → String
  | .keyword => "keyword"
  | .word => "word"
  | .operator => "operator"
  | .int => "int"
  | .float => "float"

/-- The kind with a given name. -/
def ofName? : String → Option TokenKind
  | "keyword" => some .keyword
  | "word" => some .word
  | "operator" => some .operator
  | "int" => some .int
  | "float" => some .float
  | _ => none

theorem ofName?_name (k : TokenKind) : ofName? k.name = some k := by
  cases k <;> rfl

end TokenKind

/-- Whether the number being read has had its decimal point. -/
inductive NumberKind where
  | int
  | float
deriving DecidableEq

/-- The kind of token that a number becomes. -/
def NumberKind.tokenKind : NumberKind → TokenKind
  | .int => .int
  | .float => .float

/-- A piece of text that was recognised. -/
structure Token where
  /-- The lexeme as it stands in the text. -/
  value : String
  /-- What it was recognised as. -/
  kind : TokenKind
  /-- Where it stands. -/
  span : Span
deriving DecidableEq

namespace Token

/-- A token without its place. -/
def label (t : Token) : String × TokenKind := (t.value, t.kind)

/-- A token as `kind(value)`. -/
def text (t : Token) : String := t.kind.name ++ "(" ++ t.value ++ ")"

end Token

end Lexis
