/-!
  Lexis.Word

  Arithmetic on counts of 64 and of 32 bits that refuses to wrap: a sum or difference that does not
  fit is an error of its own.
-/

namespace Lexis.Word

/-- The operation whose result did not fit. -/
inductive Overflow where
  | add
  | subtract
deriving DecidableEq

/-- The text of an arithmetic failure. -/
def Overflow.message : Overflow → String
  | .add => "attempt to add with overflow"
  | .subtract => "attempt to subtract with overflow"

/-- The counts that fit in a 64-bit word are those below `2 ^ 64`. -/
def limit : Nat := Nat.pow 2 64

/-- The sum of two counts, if it fits. -/
def add (a b : Nat) : Except Overflow Nat :=
  if a + b < limit then .ok (a + b) else .error .add

/-- One more than a 32-bit count, if it fits. -/
def increment (n : UInt32) : Except Overflow UInt32 :=
  if n.toNat + 1 < UInt32.size then .ok (n + 1) else .error .add

/-- The difference of two counts, if it is not negative. -/
def subtract (a b : Nat) : Except Overflow Nat :=
  if b ≤ a then .ok (a - b) else .error .subtract

end Lexis.Word
