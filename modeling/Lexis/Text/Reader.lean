/-!
  Lexis.Text.Reader

  Taking things off the front of a text, in any notation.
-/

namespace Lexis.Text

/-- A reader takes something off the front of a text. -/
abbrev Reader (α : Type) := List Char → Option (α × List Char)

/-- Put a character in front of what is read. -/
def prepend (c : Char) (r : Option (List Char × List Char)) : Option (List Char × List Char) :=
  r.map fun p => (c :: p.1, p.2)

/-- The value of a hexadecimal digit. -/
def hexDigit? (c : Char) : Option Nat :=
  if '0' ≤ c && c ≤ '9' then some (c.toNat - '0'.toNat)
  else if 'a' ≤ c && c ≤ 'f' then some (c.toNat - 'a'.toNat + 10)
  else if 'A' ≤ c && c ≤ 'F' then some (c.toNat - 'A'.toNat + 10)
  else none

@[simp] theorem prepend_none (c : Char) : prepend c none = none := rfl

@[simp] theorem prepend_some (c : Char) (body rest : List Char) :
    prepend c (some (body, rest)) = some (c :: body, rest) := rfl

end Lexis.Text
