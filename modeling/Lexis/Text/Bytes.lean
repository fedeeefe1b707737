/-!
  Lexis.Text.Bytes

  Byte offsets into a text. A text is a list of characters; each takes one to four bytes in
  UTF-8, and offsets and lengths count bytes.
-/

namespace Lexis.Text

/-- Number of bytes of a text. -/
def byteLength : List Char → Nat
  | [] => 0
  | c :: cs => c.utf8Size + byteLength cs

@[simp] theorem byteLength_nil : byteLength [] = 0 := rfl

@[simp] theorem byteLength_cons (c : Char) (cs : List Char) :
    byteLength (c :: cs) = c.utf8Size + byteLength cs := rfl

@[simp] theorem byteLength_append (as bs : List Char) :
    byteLength (as ++ bs) = byteLength as + byteLength bs := by
  induction as with
  | nil => simp
  | cons a as ih => simp [ih, Nat.add_assoc]

/-- A character takes at least one byte. -/
theorem length_le_byteLength : ∀ cs : List Char, cs.length ≤ byteLength cs
  | [] => Nat.le_refl 0
  | c :: cs => by
    rw [List.length_cons, byteLength_cons, Nat.add_comm]
    exact Nat.add_le_add c.utf8Size_pos (length_le_byteLength cs)

theorem byteLength_pos {cs : List Char} (h : cs ≠ []) : 0 < byteLength cs :=
  Nat.lt_of_lt_of_le (List.length_pos_iff.mpr h) (length_le_byteLength cs)

/-- The bytes of a string are the bytes of its characters. -/
@[simp] theorem byteLength_toList (s : String) : byteLength s.toList = s.utf8ByteSize := by
  induction s using String.push_induction with
  | empty => rfl
  | push b c ih => simp [String.toList_push, String.utf8ByteSize_push, ih]

/-- Every character with the offset of its first byte, counted from `offset`. -/
def charOffsets (offset : Nat) : List Char → List (Nat × Char)
  | [] => []
  | c :: cs => (offset, c) :: charOffsets (offset + c.utf8Size) cs

@[simp] theorem charOffsets_nil (offset : Nat) : charOffsets offset [] = [] := rfl

@[simp] theorem charOffsets_cons (offset : Nat) (c : Char) (cs : List Char) :
    charOffsets offset (c :: cs) = (offset, c) :: charOffsets (offset + c.utf8Size) cs := rfl

/-- The text after its first `n` bytes, unless that would split a character or leave the text. -/
def dropBytes? : Nat → List Char → Option (List Char)
  | 0, cs => some cs
  | _ + 1, [] => none
  | n + 1, c :: cs => if c.utf8Size ≤ n + 1 then dropBytes? (n + 1 - c.utf8Size) cs else none

/-- The first `n` bytes of a text, unless that would split a character or leave the text. -/
def takeBytes? : Nat → List Char → Option (List Char)
  | 0, _ => some []
  | _ + 1, [] => none
  | n + 1, c :: cs =>
    if c.utf8Size ≤ n + 1 then (takeBytes? (n + 1 - c.utf8Size) cs).map (c :: ·) else none

/-- The bytes from `start` up to `stop`, if both are character boundaries in ascending order. -/
def slice? (cs : List Char) (start stop : Nat) : Option (List Char) :=
  if start ≤ stop then (dropBytes? start cs).bind (takeBytes? (stop - start)) else none

/-- A character boundary lies before a character or at the end of the text. -/
def isBoundary (cs : List Char) (offset : Nat) : Bool :=
  (dropBytes? offset cs).isSome

theorem dropBytes?_append (as bs : List Char) :
    dropBytes? (byteLength as) (as ++ bs) = some bs := by
  induction as with
  | nil => cases bs <;> rfl
  | cons a as ih =>
    have ha : 0 < a.utf8Size := a.utf8Size_pos
    obtain ⟨k, hk⟩ : ∃ k, a.utf8Size + byteLength as = k + 1 := ⟨_, (Nat.succ_pred (by omega)).symm⟩
    rw [List.cons_append, byteLength_cons, hk, dropBytes?]
    rw [if_pos (by omega), ← hk, Nat.add_sub_cancel_left, ih]

theorem takeBytes?_append (as bs : List Char) :
    takeBytes? (byteLength as) (as ++ bs) = some as := by
  induction as with
  | nil => cases bs <;> rfl
  | cons a as ih =>
    have ha : 0 < a.utf8Size := a.utf8Size_pos
    obtain ⟨k, hk⟩ : ∃ k, a.utf8Size + byteLength as = k + 1 := ⟨_, (Nat.succ_pred (by omega)).symm⟩
    rw [List.cons_append, byteLength_cons, hk, takeBytes?]
    rw [if_pos (by omega), ← hk, Nat.add_sub_cancel_left, ih, Option.map_some]

end Lexis.Text
