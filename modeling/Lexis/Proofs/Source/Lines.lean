import Lexis.Proofs.Source.Places

/-!
  Lexis.Proofs.Source.Lines

  Single lines of a text. A line is looked up between two entries of the line table and loses the
  line breaks at its end. `lineAt_eq` gives it from the text itself: between whole lines and the
  next line end there is one line, and it has the number of the line ends before it.
  `exists_line_of_place` says the same of the line on which a place lies.
-/

namespace Lexis

/-! ## Trailing characters -/

namespace Text

variable {p : Char → Bool} {as bs : List Char}

@[simp] theorem dropTrailing_nil (p : Char → Bool) : dropTrailing p [] = [] := rfl

theorem dropTrailing_append_of_pos (as : List Char) (h : ∀ c ∈ bs, p c = true) :
    dropTrailing p (as ++ bs) = dropTrailing p as := by
  have hall : ∀ c ∈ bs.reverse, p c = true := fun c hc => h c (List.mem_reverse.mp hc)
  rw [dropTrailing, List.reverse_append, List.dropWhile_append_of_pos hall]
  rfl

theorem length_dropTrailing_le (p : Char → Bool) (cs : List Char) :
    (dropTrailing p cs).length ≤ cs.length := by
  have hsub : (cs.reverse.dropWhile p).length ≤ cs.reverse.length :=
    (List.dropWhile_sublist p).length_le
  rw [List.length_reverse] at hsub
  rw [dropTrailing, List.length_reverse]
  exact hsub

/-- Nothing is removed beyond a character that stays. -/
theorem dropTrailing_append_of_neg (h : ∀ c, as.getLast? = some c → p c = false) :
    dropTrailing p (as ++ bs) = as ++ dropTrailing p bs := by
  induction bs using List.reverseRecOn with
  | nil =>
    rw [List.append_nil, dropTrailing_nil, List.append_nil]
    cases as using List.reverseRecOn with
    | nil => rfl
    | append_singleton as c =>
      have hc : p c = false := h c (by simp)
      simp [dropTrailing, hc]
  | append_singleton bs c ih =>
    by_cases hc : p c = true
    · have hone : ∀ d ∈ [c], p d = true := by simpa using hc
      rw [← List.append_assoc, dropTrailing_append_of_pos _ hone, ih,
        dropTrailing_append_of_pos _ hone]
    · simp [dropTrailing, hc]

end Text

namespace Source

variable {s : Source} {ls line rest pre post : List Char}

/-! ## Entries of the line table -/

theorem utf8Size_newline : '\n'.utf8Size = 1 := rfl

theorem lineStarts_split (h : s.chars = ls ++ line ++ rest) (hline : '\n' ∉ line) :
    s.lineStarts =
      0 :: Text.lineBreaks 0 ls ++ Text.lineBreaks (Text.byteLength (ls ++ line)) rest := by
  rw [lineStarts_eq, h, Text.lineBreaks_append, Text.lineBreaks_append,
    Text.lineBreaks_eq_nil hline, List.append_nil, Nat.zero_add]
  rfl

/-- The line after whole lines begins behind them. -/
theorem lineStarts_getElem?_start (h : s.chars = ls ++ line ++ rest) (hline : '\n' ∉ line)
    (hls : ls = [] ∨ ∃ ls', ls = ls' ++ ['\n']) :
    s.lineStarts[ls.count '\n']? = some (Text.byteLength ls) := by
  rw [lineStarts_split h hline]
  rcases hls with rfl | ⟨ls', rfl⟩
  · rfl
  · have hlen : (Text.lineBreaks 0 ls').length = ls'.count '\n' := Text.length_lineBreaks 0 ls'
    have hone : Text.lineBreaks (0 + Text.byteLength ls') ['\n'] =
        [Text.byteLength (ls' ++ ['\n'])] := by
      simp [Text.lineBreaks, utf8Size_newline]
    rw [Text.lineBreaks_append, hone, List.count_append, List.cons_append]
    simp [← hlen]

/-- It ends behind the next line end, if there is one. -/
theorem lineStarts_getElem?_stop (h : s.chars = ls ++ line ++ rest) (hline : '\n' ∉ line)
    (hrest : rest = [] ∨ ∃ rest', rest = '\n' :: rest') :
    s.lineStarts[ls.count '\n' + 1]?.getD s.size =
      Text.byteLength ls + Text.byteLength (line ++ rest.take 1) := by
  have hlen : (0 :: Text.lineBreaks 0 ls).length = ls.count '\n' + 1 := by
    rw [List.length_cons, Text.length_lineBreaks]
  rw [lineStarts_split h hline, List.getElem?_append_right (by omega), hlen, Nat.sub_self]
  rcases hrest with rfl | ⟨rest', rfl⟩
  · simp [Text.lineBreaks, size, h]
  · simp [Text.lineBreaks, Nat.add_assoc, utf8Size_newline]

/-! ## Lines -/

/-- The line between whole lines and the next line end. -/
theorem lineAt_eq (h : s.chars = ls ++ line ++ rest) (hline : '\n' ∉ line)
    (hls : ls = [] ∨ ∃ ls', ls = ls' ++ ['\n'])
    (hrest : rest = [] ∨ ∃ rest', rest = '\n' :: rest') :
    s.lineAt (ls.count '\n' + 1) =
      some (String.ofList (Text.dropTrailing Text.isLineBreak line)) := by
  have hslice : Text.slice? s.chars (Text.byteLength ls)
      (Text.byteLength ls + Text.byteLength (line ++ rest.take 1)) =
        some (line ++ rest.take 1) := by
    have hchars : s.chars = ls ++ (line ++ rest.take 1) ++ rest.drop 1 := by
      rw [h, ← List.append_assoc ls, List.append_assoc (ls ++ line), List.take_append_drop]
    rw [hchars]
    exact slice?_boundary ls (line ++ rest.take 1) (rest.drop 1)
  have hbreak : ∀ c ∈ rest.take 1, Text.isLineBreak c = true := by
    rcases hrest with rfl | ⟨rest', rfl⟩
    · simp
    · simp [Text.isLineBreak]
  simp only [lineAt, lineStarts_getElem?_start h hline hls, lineStarts_getElem?_stop h hline hrest,
    hslice, Option.bind_eq_bind, Option.bind_some, Option.pure_def]
  rw [Text.dropTrailing_append_of_pos line hbreak]

/-- The line on which a place lies: what stands on it before the place, and after the place up to
    the line end. -/
theorem exists_line_of_place (h : s.chars = pre ++ post) :
    ∃ line, line <:+ pre ∧ (Position.start.after pre).column = line.length + 1 ∧
      s.lineAt (Position.start.after pre).line = some (String.ofList
        (Text.dropTrailing Text.isLineBreak (line ++ post.takeWhile (· ≠ '\n')))) := by
  obtain ⟨ls, line, rfl, hline, hls⟩ := Text.exists_lastLine pre
  refine ⟨line, List.suffix_append ls line, ?_, ?_⟩
  · rw [Position.after_start_column, Text.lastLineLength_of_lastLine hline hls]
  · have hnumber : (Position.start.after (ls ++ line)).line = ls.count '\n' + 1 := by
      rw [Position.after_line, List.count_append, List.count_eq_zero.mpr hline]
      exact Nat.add_comm _ _
    have hchars : s.chars = ls ++ (line ++ post.takeWhile (· ≠ '\n')) ++
        post.dropWhile (· ≠ '\n') := by
      rw [h, List.append_assoc, List.append_assoc, List.append_assoc,
        List.takeWhile_append_dropWhile]
    have hfree : '\n' ∉ line ++ post.takeWhile (· ≠ '\n') := by
      rw [List.mem_append, not_or]
      refine ⟨hline, fun hmem => ?_⟩
      simpa using List.mem_takeWhile_imp hmem
    rw [hnumber]
    refine lineAt_eq hchars hfree hls ?_
    -- What is left of the text after the line begins with its line end.
    cases hrest : post.dropWhile (· ≠ '\n') with
    | nil => exact Or.inl rfl
    | cons c rest =>
      have hc := List.head?_dropWhile_not (· ≠ '\n') post
      rw [hrest] at hc
      exact Or.inr ⟨rest, by simpa using hc⟩

end Source

end Lexis
