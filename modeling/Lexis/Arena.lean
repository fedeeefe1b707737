/-!
  Lexis.Arena

  A store that hands out indices: items are appended once, addressed by the index they were given,
  and never removed, so an index stays valid for good.
-/

namespace Lexis

/-- Items addressed by the order in which they were added. -/
structure Arena (α : Type) where
  /-- The items in order. -/
  items : Array α
deriving DecidableEq

namespace Arena

variable {α : Type}

/-- An access to an index that was never handed out. -/
structure OutOfRange where
  /-- Number of items of the arena. -/
  size : Nat
  /-- The index asked for. -/
  index : Nat
deriving DecidableEq

/-- The text of a failed access. -/
def OutOfRange.message (e : OutOfRange) : String :=
  s!"index out of bounds: the len is {e.size} but the index is {e.index}"

/-- The arena without items. -/
def empty : Arena α := ⟨#[]⟩

/-- Number of items. -/
def size (a : Arena α) : Nat := a.items.size

/-- The arena holds no item. -/
def isEmpty (a : Arena α) : Bool := a.items.isEmpty

/-- Append an item; its index is the former size. -/
def push (a : Arena α) (x : α) : Arena α := ⟨a.items.push x⟩

/-- The item at an index, if there is one. -/
def get? (a : Arena α) (index : Nat) : Option α := a.items[index]?

/-- The item at an index that is expected to be valid. -/
def fetch (a : Arena α) (index : Nat) : Except OutOfRange α :=
  match a.get? index with
  | some x => .ok x
  | none => .error ⟨a.size, index⟩

/-- Replace the item at an index that is expected to be valid. -/
def replace (a : Arena α) (index : Nat) (x : α) : Except OutOfRange (Arena α) :=
  if index < a.size then .ok ⟨a.items.setIfInBounds index x⟩ else .error ⟨a.size, index⟩

/-- Change the item at an index; an index out of range changes nothing. -/
def modify (a : Arena α) (index : Nat) (f : α → α) : Arena α := ⟨a.items.modify index f⟩

/-- The items as a list in brackets. -/
def text (shown : α → String) (a : Arena α) : String :=
  "[" ++ ", ".intercalate (a.items.toList.map shown) ++ "]"

@[simp] theorem size_empty : (empty : Arena α).size = 0 := rfl

@[simp] theorem size_push (a : Arena α) (x : α) : (a.push x).size = a.size + 1 := by
  simp [size, push]

@[simp] theorem size_modify (a : Arena α) (i : Nat) (f : α → α) : (a.modify i f).size = a.size := by
  simp [size, modify]

theorem get?_push (a : Arena α) (x : α) (i : Nat) :
    (a.push x).get? i = if i = a.size then some x else a.get? i := by
  by_cases h : i = a.size
  · subst h; simp [get?, push, size]
  · rw [if_neg h]; simp [get?, push, Array.getElem?_push, show i ≠ a.items.size from h]

theorem get?_modify (a : Arena α) (i j : Nat) (f : α → α) :
    (a.modify i f).get? j = if j = i then (a.get? j).map f else a.get? j := by
  by_cases h : j = i
  · subst h; simp [get?, modify, Array.getElem?_modify]
  · rw [if_neg h]; simp [get?, modify, Array.getElem?_modify, show i ≠ j from fun e => h e.symm]

theorem get?_eq_none (a : Arena α) {i : Nat} (h : a.size ≤ i) : a.get? i = none :=
  Array.getElem?_eq_none h

end Arena

end Lexis
