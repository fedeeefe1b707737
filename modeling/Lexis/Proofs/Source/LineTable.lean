import Lexis.Proofs.Source.Offsets

/-!
  Lexis.Proofs.Source.LineTable

  Lines by number. The line table cuts a text at its line ends: line `k` is the piece number `k` of
  the text split there, without the carriage returns at its end (`lineAt_succ`). Every place that an
  offset can have is on one of these lines, and a character is found again on its line at its column
  (`exists_char_of_place`).
-/

namespace Lexis

namespace Text

variable {cs : List Char}

theorem dropTrailing_congr {p q : Char → Bool} (h : ∀ c ∈ cs, p c = q c) :
    dropTrailing p cs = dropTrailing q cs := by
  induction cs using List.reverseRecOn with
  | nil => rfl
  | append_singleton cs c ih =>
    have hc : p c = q c := h c (by simp)
    have hcs : dropTrailing p cs = dropTrailing q cs := ih fun d hd => h d (by simp [hd])
    cases hq : q c with
    | true =>
      rw [dropTrailing_append_of_pos cs (by simpa using hc.trans hq),
        dropTrailing_append_of_pos cs (by simpa using hq), hcs]
    | false =>
      rw [dropTrailing, dropTrailing, List.reverse_append, List.reverse_singleton,
        List.singleton_append, List.dropWhile_cons_of_neg (by simp [hc.trans hq]),
        List.dropWhile_cons_of_neg (by simp [hq])]

/-! ## Texts split at their line ends -/

theorem length_splitOn_newline (cs : List Char) :
    (cs.splitOn '\n').length = cs.count '\n' + 1 := by
  induction cs with
  | nil => rfl
  | cons c cs ih =>
    rw [List.splitOn_cons_eq_if_modifyHead, List.count_cons]
    by_cases hc : c = '\n' <;> simp [hc, ih]

/-- Each piece stands between whole lines and the next line end, and its number is the number of
    line ends before it. -/
theorem exists_of_splitOn_newline {k : Nat} {piece : List Char}
    (h : (cs.splitOn '\n')[k]? = some piece) :
    ∃ ls rest, cs = ls ++ piece ++ rest ∧ '\n' ∉ piece ∧ ls.count '\n' = k ∧
      (ls = [] ∨ ∃ ls', ls = ls' ++ ['\n']) ∧ (rest = [] ∨ ∃ rest', rest = '\n' :: rest') := by
  induction cs generalizing k piece with
  | nil =>
    obtain ⟨rfl, rfl⟩ : k = 0 ∧ piece = [] := by
      cases k with
      | zero => exact ⟨rfl, by simpa using h.symm⟩
      | succ k => simp at h
    exact ⟨[], [], rfl, by simp, rfl, Or.inl rfl, Or.inl rfl⟩
  | cons c cs ih =>
    rw [List.splitOn_cons_eq_if_modifyHead] at h
    by_cases hc : c = '\n'
    · subst hc
      rw [if_pos (by simp)] at h
      cases k with
      | zero =>
        obtain rfl : [] = piece := by simpa using h
        exact ⟨[], '\n' :: cs, rfl, by simp, rfl, Or.inl rfl, Or.inr ⟨cs, rfl⟩⟩
      | succ k =>
        obtain ⟨ls, rest, rfl, hpiece, rfl, hls, hrest⟩ := ih h
        refine ⟨'\n' :: ls, rest, rfl, hpiece, by simp, Or.inr ?_, hrest⟩
        rcases hls with rfl | ⟨ls', rfl⟩
        · exact ⟨[], rfl⟩
        · exact ⟨'\n' :: ls', rfl⟩
    · rw [if_neg (by simpa using hc)] at h
      cases k with
      | zero =>
        -- The first piece grows by `c`; nothing stands before it.
        obtain ⟨first, hfirst, rfl⟩ : ∃ first, (cs.splitOn '\n')[0]? = some first ∧
            c :: first = piece := by
          cases hsplit : cs.splitOn '\n' with
          | nil => simp [hsplit] at h
          | cons first more => exact ⟨first, rfl, by simpa [hsplit] using h⟩
        obtain ⟨ls, rest, rfl, hpiece, hcount, hls, hrest⟩ := ih hfirst
        obtain rfl : ls = [] := by
          rcases hls with rfl | ⟨ls', rfl⟩
          · rfl
          · simp at hcount
        exact ⟨[], rest, rfl, by simp [hpiece, Ne.symm hc], rfl, Or.inl rfl, hrest⟩
      | succ k =>
        rw [List.getElem?_modifyHead] at h
        obtain ⟨ls, rest, rfl, hpiece, hcount, hls, hrest⟩ := ih (by simpa using h)
        refine ⟨c :: ls, rest, rfl, hpiece, ?_, Or.inr ?_, hrest⟩
        · rw [List.count_cons_of_ne hc, hcount]
        · rcases hls with rfl | ⟨ls', rfl⟩
          · simp at hcount
          · exact ⟨c :: ls', rfl⟩

end Text

namespace Source

variable {s : Source}

/-! ## Lines by number -/

theorem lineCount_eq (s : Source) : s.lineCount = s.chars.count '\n' + 1 := by
  rw [lineCount, lineStarts_eq, List.length_cons, Text.length_lineBreaks]

theorem lineAt_eq_none_of_lineCount_le {k : Nat} (h : s.lineCount ≤ k) :
    s.lineAt (k + 1) = none := by
  rw [lineAt, List.getElem?_eq_none h]
  rfl

/-- A line is a piece of the text split at its line ends, without carriage returns at its end. -/
theorem lineAt_succ (s : Source) (k : Nat) :
    s.lineAt (k + 1) = (s.chars.splitOn '\n')[k]?.map fun piece =>
      String.ofList (Text.dropTrailing (· = '\r') piece) := by
  cases hpiece : (s.chars.splitOn '\n')[k]? with
  | none =>
    have hlen := List.getElem?_eq_none_iff.mp hpiece
    rw [Text.length_splitOn_newline, ← lineCount_eq] at hlen
    exact lineAt_eq_none_of_lineCount_le hlen
  | some piece =>
    obtain ⟨ls, rest, hchars, hfree, rfl, hls, hrest⟩ := Text.exists_of_splitOn_newline hpiece
    rw [lineAt_eq hchars hfree hls hrest, Option.map_some]
    -- A piece holds no line end, so only carriage returns are taken off it.
    rw [Text.dropTrailing_congr]
    intro c hc
    have hne : c ≠ '\n' := fun h => hfree (h ▸ hc)
    simp [Text.isLineBreak, hne]

theorem lineAt_eq_none_iff (s : Source) (k : Nat) :
    s.lineAt k = none ↔ k = 0 ∨ s.lineCount < k := by
  cases k with
  | zero => simp [lineAt]
  | succ k =>
    rw [lineAt_succ, Option.map_eq_none_iff, List.getElem?_eq_none_iff,
      Text.length_splitOn_newline, ← lineCount_eq]
    omega

/-! ## Lines of places -/

theorem exists_line_of_offset (s : Source) (offset : Nat) :
    ∃ line, s.lineAt (s.lineCol offset).1 = some line := by
  obtain ⟨pre, post, hchars, ho⟩ := Text.exists_reaches (Nat.min_le_right offset s.size)
  obtain ⟨line, -, -, hline⟩ := exists_line_of_place hchars
  rw [← lineCol_min, lineCol_of_reaches hchars ho]
  exact ⟨_, hline⟩

/-- A character that does not belong to a line break stands on its line at its column. -/
theorem exists_char_of_place {i : Nat} {c : Char} (h : Text.charAt? s.chars i = some c)
    (hc : Text.isLineBreak c = false) :
    ∃ line column, s.lineAt (s.lineCol i).1 = some line ∧ (s.lineCol i).2 = column + 1 ∧
      line.toList[column]? = some c := by
  obtain ⟨pre, post, hchars, rfl⟩ := Text.charAt?_eq_some_iff.mp h
  obtain ⟨line, -, hcolumn, hline⟩ := exists_line_of_place hchars
  have hne : c ≠ '\n' := by
    rintro rfl
    exact absurd hc (by decide)
  rw [lineCol_boundary hchars]
  refine ⟨_, line.length, hline, hcolumn, ?_⟩
  -- The line breaks taken off the end all stand behind the character.
  rw [List.takeWhile_cons_of_pos (by simpa using hne), ← List.singleton_append, ← List.append_assoc,
    Text.dropTrailing_append_of_neg, String.toList_ofList, List.append_assoc]
  · simp
  · intro d hd
    obtain rfl : c = d := by simpa using hd
    exact hc

end Source

/-- The line table and the look-up of offsets agree. There is one line more than there are line
    ends; a line with a number in that range is a piece of the text split at its line ends, without
    the carriage returns at its end, and no other line exists. Every offset is on one of the lines,
    so the line of a span always exists, and every character but those of line breaks is found on
    the line and at the column of its first byte. -/
theorem line_table_agrees (s : Source) :
    s.lineCount = 1 + s.chars.count '\n' ∧
    (∀ k, s.lineAt k = none ↔ k = 0 ∨ s.lineCount < k) ∧
    (∀ k, s.lineAt (k + 1) = (s.chars.splitOn '\n')[k]?.map fun piece =>
      String.ofList (Text.dropTrailing (· = '\r') piece)) ∧
    (∀ offset, ∃ line, s.lineAt (s.lineCol offset).1 = some line) ∧
    (∀ span, s.lineOf span ≠ none) ∧
    ∀ i c, Text.charAt? s.chars i = some c → c ≠ '\n' → c ≠ '\r' →
      ∃ line column, s.lineAt (s.lineCol i).1 = some line ∧ (s.lineCol i).2 = column + 1 ∧
        line.toList[column]? = some c := by
  refine ⟨?_, s.lineAt_eq_none_iff, s.lineAt_succ, s.exists_line_of_offset, ?_, ?_⟩
  · rw [s.lineCount_eq, Nat.add_comm]
  · intro span hnone
    obtain ⟨line, hline⟩ := s.exists_line_of_offset span.start
    rw [Source.lineOf, hline] at hnone
    cases hnone
  · intro i c hc hn hr
    exact Source.exists_char_of_place hc (by simp [Text.isLineBreak, hn, hr])

/-- In a text with a carriage return before its line end, the last character of the second line is
    found at its column behind a character of two bytes. -/
theorem line_table_agrees_after_return :
    Text.charAt? (Source.mk "sets" "if\r\nλx").chars 6 = some 'x' ∧ 'x' ≠ '\n' ∧ 'x' ≠ '\r' ∧
      ∃ line column, (Source.mk "sets" "if\r\nλx").lineAt 2 = some line ∧ column + 1 = 2 ∧
        line.toList[column]? = some 'x' := by
  have hchar : Text.charAt? (Source.mk "sets" "if\r\nλx").chars 6 = some 'x' := by decide
  have hplace : (Source.mk "sets" "if\r\nλx").lineCol 6 = (2, 2) := by decide
  obtain ⟨-, -, -, -, -, hfind⟩ := line_table_agrees ⟨"sets", "if\r\nλx"⟩
  obtain ⟨line, column, hline, hcolumn, hx⟩ := hfind 6 'x' hchar (by decide) (by decide)
  rw [hplace] at hline hcolumn
  exact ⟨hchar, by decide, by decide, line, column, hline, hcolumn.symm, hx⟩

end Lexis
