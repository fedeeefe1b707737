/-!
  Lexis.Search

  Binary search in an ascending table. The stretch in question is halved until the key is found or
  nothing is left of it.
-/

namespace Lexis.Search

/-- What a search finds. -/
inductive Hit where
  /-- The key stands at this index. -/
  | found (index : Nat)
  /-- The key is absent; at this index it could be inserted. -/
  | absent (index : Nat)
deriving DecidableEq

/-- Search the entries from `lo` up to `hi`. -/
def between (table : Array Nat) (key lo hi : Nat) (h : hi ≤ table.size) : Hit :=
  if hlt : lo < hi then
    let mid := lo + (hi - lo) / 2
    have hmid : mid < table.size := by omega
    if table[mid] = key then .found mid
    else if table[mid] < key then between table key (mid + 1) hi h
    else between table key lo mid (by omega)
  else .absent lo
termination_by hi - lo

/-- Search a whole table. -/
def binary (table : Array Nat) (key : Nat) : Hit :=
  between table key 0 table.size (Nat.le_refl _)

end Lexis.Search
