import Lexis.Source
import Mathlib.Data.List.Induction
import Mathlib.Data.List.TakeWhile

/-!
  Lexis.Proofs.Source.Places

  Places in a text seen from the two sides that must agree: the position a reader reaches by
  advancing over a text (`Position.after`), and the line table of a source. An offset stands for the
  characters that begin before it (`Text.Reaches`): from them the table counts the line ends, and
  the characters since the last of them (`lineCol_of_reaches`). At the boundary after `pre` these
  are the characters of `pre` (`lineCol_boundary`), and the text between two boundaries is what a
  span covers (`snippet_boundary`).
-/

namespace Lexis

/-! ## The position after a text -/

/-- Characters after the last line end. -/
def Text.lastLineLength (cs : List Char) : Nat := (cs.reverse.takeWhile (· ≠ '\n')).length

theorem Text.lastLineLength_append_of_notMem (as : List Char) {bs : List Char} (h : '\n' ∉ bs) :
    Text.lastLineLength (as ++ bs) = Text.lastLineLength as + bs.length := by
  have hall : ∀ c ∈ bs.reverse, decide (c ≠ '\n') = true := by
    intro c hc
    have : c ≠ '\n' := fun e => h (e ▸ List.mem_reverse.mp hc)
    simpa using this
  unfold lastLineLength
  rw [List.reverse_append, List.takeWhile_append_of_pos hall]
  simp [Nat.add_comm]

@[simp] theorem Text.lastLineLength_newline (as : List Char) :
    Text.lastLineLength (as ++ ['\n']) = 0 := by
  simp [lastLineLength]

/-- A text is a number of whole lines and a last line. -/
theorem Text.exists_lastLine (cs : List Char) :
    ∃ ls line, cs = ls ++ line ∧ '\n' ∉ line ∧ (ls = [] ∨ ∃ ls', ls = ls' ++ ['\n']) := by
  induction cs using List.reverseRecOn with
  | nil => exact ⟨[], [], rfl, by simp, Or.inl rfl⟩
  | append_singleton cs c ih =>
    obtain ⟨ls, line, rfl, hline, hls⟩ := ih
    by_cases hc : c = '\n'
    · subst hc
      exact ⟨ls ++ line ++ ['\n'], [], by simp, by simp, Or.inr ⟨_, rfl⟩⟩
    · refine ⟨ls, line ++ [c], by simp, ?_, hls⟩
      simp [hline, Ne.symm hc]

theorem Text.lastLineLength_of_lastLine {ls line : List Char} (hline : '\n' ∉ line)
    (hls : ls = [] ∨ ∃ ls', ls = ls' ++ ['\n']) :
    Text.lastLineLength (ls ++ line) = line.length := by
  rw [Text.lastLineLength_append_of_notMem ls hline]
  rcases hls with rfl | ⟨ls', rfl⟩
  · simp [Text.lastLineLength]
  · simp

namespace Position

/-- The position after a text that begins at this position. -/
def after (p : Position) (cs : List Char) : Position := cs.foldl advance p

@[simp] theorem after_nil (p : Position) : p.after [] = p := rfl

@[simp] theorem after_cons (p : Position) (c : Char) (cs : List Char) :
    p.after (c :: cs) = (p.advance c).after cs := rfl

theorem after_append (p : Position) (as bs : List Char) :
    p.after (as ++ bs) = (p.after as).after bs :=
  List.foldl_append

theorem after_concat (p : Position) (cs : List Char) (c : Char) :
    p.after (cs ++ [c]) = (p.after cs).advance c := by
  simp [after_append]

@[simp] theorem after_offset (p : Position) (cs : List Char) :
    (p.after cs).offset = p.offset + Text.byteLength cs := by
  induction cs generalizing p with
  | nil => rfl
  | cons c cs ih => simp [ih, Nat.add_assoc]

theorem after_line (p : Position) (cs : List Char) :
    (p.after cs).line = p.line + cs.count '\n' := by
  induction cs using List.reverseRecOn with
  | nil => rfl
  | append_singleton cs c ih =>
    rw [after_concat, advance]
    by_cases hc : c = '\n'
    · subst hc
      simp [ih, Nat.add_assoc]
    · simp [hc, ih]

theorem after_start_column (cs : List Char) :
    (start.after cs).column = Text.lastLineLength cs + 1 := by
  induction cs using List.reverseRecOn with
  | nil => rfl
  | append_singleton cs c ih =>
    rw [after_concat, advance]
    by_cases hc : c = '\n'
    · subst hc
      simp
    · rw [if_neg hc, Text.lastLineLength_append_of_notMem cs (by simp [Ne.symm hc])]
      simp [ih]

end Position

/-! ## Characters with their offsets -/

namespace Text

theorem charOffsets_append (o : Nat) (as bs : List Char) :
    charOffsets o (as ++ bs) = charOffsets o as ++ charOffsets (o + byteLength as) bs := by
  induction as generalizing o with
  | nil => rfl
  | cons a as ih => simp [ih, Nat.add_assoc]

@[simp] theorem length_charOffsets (o : Nat) (cs : List Char) :
    (charOffsets o cs).length = cs.length := by
  induction cs generalizing o with
  | nil => rfl
  | cons c cs ih => simp [ih]

/-- Every character lies inside the text. -/
theorem bounds_of_mem_charOffsets {o : Nat} {cs : List Char} {x : Nat × Char}
    (h : x ∈ charOffsets o cs) : o ≤ x.1 ∧ x.1 + x.2.utf8Size ≤ o + byteLength cs := by
  induction cs generalizing o with
  | nil => simp at h
  | cons c cs ih =>
    rw [charOffsets_cons, List.mem_cons] at h
    rw [byteLength_cons]
    rcases h with rfl | h
    · exact ⟨Nat.le_refl _, by simp only; omega⟩
    · have := ih h
      omega

/-- An offset lies behind the first byte of every character of `pre`, and not behind `pre` itself:
    in a text that begins with `pre`, these are the characters that begin before the offset. -/
structure Reaches (pre : List Char) (o : Nat) : Prop where
  begun : ∀ x ∈ charOffsets 0 pre, x.1 < o
  covers : o ≤ byteLength pre

theorem reaches_byteLength (pre : List Char) : Reaches pre (byteLength pre) where
  begun := by
    intro x hx
    have hb := bounds_of_mem_charOffsets hx
    have hpos := x.2.utf8Size_pos
    omega
  covers := Nat.le_refl _

theorem takeWhile_charOffsets_of_reaches {as bs : List Char} {k : Nat} (post : List Char)
    (h : Reaches (as ++ bs) k) :
    (charOffsets (byteLength as) (bs ++ post)).takeWhile (·.1 < k) =
      charOffsets (byteLength as) bs := by
  rw [charOffsets_append, List.takeWhile_append_of_pos, List.takeWhile_eq_nil_iff.mpr]
  · simp
  -- The first character of `post` is not before its own offset.
  · intro hlen
    have hb := (bounds_of_mem_charOffsets (List.get_mem _ ⟨0, hlen⟩)).1
    have hk := h.covers
    rw [byteLength_append] at hk
    simp only [decide_eq_true_eq]
    omega
  · intro x hx
    have hmem : x ∈ charOffsets 0 (as ++ bs) := by
      rw [charOffsets_append, Nat.zero_add]
      exact List.mem_append_right _ hx
    simpa using h.begun x hmem

theorem dropWhile_charOffsets (as bs : List Char) :
    (charOffsets 0 (as ++ bs)).dropWhile (·.1 < byteLength as) =
      charOffsets (byteLength as) bs := by
  have htake : (charOffsets 0 (as ++ bs)).takeWhile (·.1 < byteLength as) = charOffsets 0 as :=
    takeWhile_charOffsets_of_reaches bs (List.nil_append as ▸ reaches_byteLength as)
  have hsplit := List.takeWhile_append_dropWhile
    (p := fun x : Nat × Char => decide (x.1 < byteLength as)) (l := charOffsets 0 (as ++ bs))
  rw [htake] at hsplit
  apply List.append_cancel_left
  rw [hsplit, charOffsets_append, Nat.zero_add]

/-- The places just after the line ends of a text. -/
def lineBreaks (o : Nat) (cs : List Char) : List Nat :=
  (charOffsets o cs).filterMap fun x => if x.2 = '\n' then some (x.1 + 1) else none

theorem lineBreaks_append (o : Nat) (as bs : List Char) :
    lineBreaks o (as ++ bs) = lineBreaks o as ++ lineBreaks (o + byteLength as) bs := by
  simp [lineBreaks, charOffsets_append]

theorem length_lineBreaks (o : Nat) (cs : List Char) :
    (lineBreaks o cs).length = cs.count '\n' := by
  induction cs generalizing o with
  | nil => rfl
  | cons c cs ih =>
    rw [← List.singleton_append, lineBreaks_append, List.length_append, ih, List.count_append]
    by_cases hc : c = '\n' <;> simp [lineBreaks, hc]

theorem lineBreaks_eq_nil {o : Nat} {cs : List Char} (h : '\n' ∉ cs) : lineBreaks o cs = [] := by
  rw [← List.length_eq_zero_iff, length_lineBreaks, List.count_eq_zero]
  exact h

theorem bounds_of_mem_lineBreaks {o i : Nat} {cs : List Char} (h : i ∈ lineBreaks o cs) :
    o < i ∧ i ≤ o + byteLength cs := by
  obtain ⟨x, hx, hi⟩ := List.mem_filterMap.mp h
  have hb := bounds_of_mem_charOffsets hx
  have hpos := x.2.utf8Size_pos
  simp only [Option.ite_none_right_eq_some, Option.some.injEq] at hi
  omega

end Text

/-! ## The line table at an offset -/

namespace Source

variable {s : Source} {pre mid post : List Char} {o : Nat}

theorem lineStarts_eq (s : Source) : s.lineStarts = 0 :: Text.lineBreaks 0 s.chars := rfl

/-- The lines that have begun at an offset are those of the text before it. -/
theorem begun_of_reaches (h : s.chars = pre ++ post) (ho : Text.Reaches pre o) :
    s.lineStarts.takeWhile (· ≤ o) = 0 :: Text.lineBreaks 0 pre := by
  have hbefore : ∀ i ∈ 0 :: Text.lineBreaks 0 pre, decide (i ≤ o) = true := by
    intro i hi
    rcases List.mem_cons.mp hi with rfl | hi
    · simp
    · -- The line end before `i` begins before the offset.
      obtain ⟨x, hx, hxi⟩ := List.mem_filterMap.mp hi
      have hbegun := ho.begun x hx
      simp only [Option.ite_none_right_eq_some, Option.some.injEq] at hxi
      simp only [decide_eq_true_eq]
      omega
  rw [lineStarts_eq, h, Text.lineBreaks_append, ← List.cons_append,
    List.takeWhile_append_of_pos hbefore, List.takeWhile_eq_nil_iff.mpr, List.append_nil]
  -- A line end at or after the offset starts its line strictly behind it.
  intro hlen
  have hb := (Text.bounds_of_mem_lineBreaks (List.get_mem _ ⟨0, hlen⟩)).1
  have hk := ho.covers
  simp only [decide_eq_true_eq]
  omega

/-- The last line begins after the whole lines. -/
theorem getLast?_lineBreaks {ls line : List Char} (hline : '\n' ∉ line)
    (hls : ls = [] ∨ ∃ ls', ls = ls' ++ ['\n']) :
    (0 :: Text.lineBreaks 0 (ls ++ line)).getLast?.getD 0 = Text.byteLength ls := by
  rw [Text.lineBreaks_append, Text.lineBreaks_eq_nil hline, List.append_nil]
  rcases hls with rfl | ⟨ls', rfl⟩
  · rfl
  · rw [Text.lineBreaks_append, ← List.cons_append]
    have hone : Text.lineBreaks (0 + Text.byteLength ls') ['\n'] = [Text.byteLength ls' + 1] := by
      simp [Text.lineBreaks]
    rw [hone, List.getLast?_append, Text.byteLength_append]
    rfl

theorem lineCol_of_reaches (h : s.chars = pre ++ post) (ho : Text.Reaches pre o) :
    s.lineCol o = ((Position.start.after pre).line, (Position.start.after pre).column) := by
  have hmin : min o s.size = o := by
    have hk := ho.covers
    rw [size, h, Text.byteLength_append]
    omega
  -- The place is on the line that `line` begins; `ls` are the whole lines before it.
  obtain ⟨ls, line, rfl, hline, hls⟩ := Text.exists_lastLine pre
  have hcol : Text.lastLineLength (ls ++ line) = line.length :=
    Text.lastLineLength_of_lastLine hline hls
  simp only [lineCol, hmin, begun_of_reaches h ho, getLast?_lineBreaks hline hls]
  rw [Position.after_line, Position.after_start_column, hcol, List.length_cons,
    Text.length_lineBreaks]
  -- The characters from the start of that line up to the place are those of `line`.
  have hdrop := Text.dropWhile_charOffsets ls (line ++ post)
  have htake := Text.takeWhile_charOffsets_of_reaches post ho
  rw [h, List.append_assoc, hdrop, htake, Text.length_charOffsets, Nat.add_comm]
  rfl

theorem lineCol_boundary (h : s.chars = pre ++ post) :
    s.lineCol (Text.byteLength pre) =
      ((Position.start.after pre).line, (Position.start.after pre).column) :=
  lineCol_of_reaches h (Text.reaches_byteLength pre)

/-! ## Pieces of a text -/

theorem slice?_boundary (pre mid post : List Char) :
    Text.slice? (pre ++ mid ++ post) (Text.byteLength pre)
      (Text.byteLength pre + Text.byteLength mid) = some mid := by
  rw [Text.slice?, if_pos (Nat.le_add_right _ _), List.append_assoc, Text.dropBytes?_append,
    Nat.add_sub_cancel_left, Option.bind_some, Text.takeBytes?_append]

theorem snippet_boundary (h : s.chars = pre ++ mid ++ post) (line column : Nat) :
    s.snippet ⟨Text.byteLength pre, Text.byteLength pre + Text.byteLength mid, line, column⟩ =
      .ok (String.ofList mid) := by
  have hslice : Text.slice? s.chars (Text.byteLength pre)
      (Text.byteLength pre + Text.byteLength mid) = some mid := h ▸ slice?_boundary pre mid post
  have hsize : Text.byteLength pre + Text.byteLength mid ≤ s.size := by
    rw [size, h, Text.byteLength_append, Text.byteLength_append]
    omega
  simp [snippet, hslice, Nat.not_lt.mpr hsize]

end Source

end Lexis
