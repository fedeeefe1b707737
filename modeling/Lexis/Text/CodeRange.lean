/-!
  Lexis.Text.CodeRange

  Sets of characters given as lists of code point ranges, the form in which the properties of
  the Unicode standard are tabulated.
-/

namespace Lexis.Text

/-- First and last code point of a run, both included. -/
abbrev CodeRange := Nat × Nat

namespace CodeRange

/-- The range contains the code point of `c`. -/
def contains (r : CodeRange) (c : Char) : Bool :=
  r.1 ≤ c.toNat && c.toNat ≤ r.2

/-- Some range of the list contains `c`. -/
def covers (rs : List CodeRange) (c : Char) : Bool :=
  rs.any fun r => r.contains c

theorem covers_iff {rs : List CodeRange} {c : Char} :
    covers rs c = true ↔ ∃ r ∈ rs, r.1 ≤ c.toNat ∧ c.toNat ≤ r.2 := by
  simp [covers, contains]

end CodeRange

end Lexis.Text
