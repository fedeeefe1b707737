import Lexis.Report.FileScan
import Lexis.Proofs.Diagnosis
import Lexis.Proofs.Source.Lines

/-!
  Lexis.Proofs.Excerpt

  Diagnostics point at what is wrong. An excerpt prints the line of an error and, below it, as much
  blank text as stands before the error, and a caret. The line loses its trailing line breaks, so
  the blank text could come out too short; it never does, because an error at a line break or at the
  end of the input comes directly after a lexeme (`not_blank_before`), and any other error is at a
  character that stays on the line.
-/

namespace Lexis

open Scan

variable {lx : Lexicon} {v : Vocabulary} {e : LexError} {s : Source} {pre post : List Char}

/-! ## Line breaks -/

theorem Text.isLineBreak_eq_true_iff {c : Char} :
    Text.isLineBreak c = true ↔ c = '\n' ∨ c = '\r' := by
  simp [Text.isLineBreak]

theorem Text.isBlank_of_isLineBreak {c : Char} (h : Text.isLineBreak c = true) :
    Text.isBlank c = true := by
  rcases Text.isLineBreak_eq_true_iff.mp h with rfl | rfl <;> decide

/-- Operators hold no white space. -/
theorem Vocabulary.Usable.isBlank_eq_false (hu : v.Usable) {o : String} (ho : o ∈ v.operators)
    {c : Char} (hc : c ∈ o.toList) : Text.isBlank c = false := by
  have hfixed := (hu.operators o ho).2 c hc
  rw [← Bool.not_eq_true]
  intro hb
  rw [CharClass.fixed?_of_isBlank hb] at hfixed
  cases hfixed

/-- An error at white space or at the end of the input directly follows a character that is no white
    space: only a number without its fraction and an unfinished operator are refused there. -/
theorem LexError.Justified.not_blank_before (hr : lx.Represents v) (h : e.Justified lx v pre)
    (hfound : ∀ c, e.found = .char c → Text.isBlank c = true) {b : Char}
    (hb : pre.getLast? = some b) : Text.isBlank b = false := by
  obtain ⟨fault, found, context, span⟩ := e
  simp only at hfound
  -- A lexeme at the end of the text before the error ends with the character before the error.
  have hlast : context.toList <:+ pre → context.toList ≠ [] → b ∈ context.toList := by
    rintro ⟨before, rfl⟩ hne
    rw [List.getLast?_append_of_ne_nil _ hne] at hb
    exact List.mem_of_getLast? hb
  cases fault with
  | unclassifiableCharacter =>
    obtain ⟨c, hc, hcls⟩ := h
    have hw : lx.classify c = .whitespace :=
      Lexicon.classify_eq_whitespace_iff.mpr (hfound c hc)
    rw [hcls] at hw
    cases hw
  | malformedNumber defect =>
    cases defect with
    | missingFraction =>
      obtain ⟨⟨whole, -, hcontext⟩, ⟨before, hpre⟩, -⟩ := h
      simp only at hcontext hpre
      rw [← hpre, hcontext, ← List.append_assoc, List.getLast?_concat] at hb
      obtain rfl := Option.some.inj hb
      decide
    | secondDecimalPoint =>
      obtain ⟨-, -, hdot⟩ := h
      exact absurd (hfound '.' hdot) (by decide)
  | invalidOperator defect =>
    cases defect with
    | incomplete =>
      obtain ⟨hne, ⟨o, ho, hbegins, -⟩, -, hsuffix, -⟩ := h
      have hmem : b ∈ context.toList := hlast hsuffix (by simpa using hne)
      exact hr.usable.isBlank_eq_false ho (hbegins.subset hmem)
    | noOperatorStartsWith =>
      obtain ⟨c, hc, ⟨o, ho, hmem⟩, -⟩ := h
      have hno := hr.usable.isBlank_eq_false ho hmem
      rw [hfound c hc] at hno
      cases hno
  | unexpectedCharacter cls =>
    obtain ⟨c, hc, hcls, hcases⟩ := h
    have hw : lx.classify c = .whitespace :=
      Lexicon.classify_eq_whitespace_iff.mpr (hfound c hc)
    rw [hcls] at hw
    subst hw
    simp at hcases
  | unexpectedState phase => exact h.elim

/-! ## The parts of an excerpt -/

/-- The parts of an excerpt that point at an error: the line, and the blank text before the caret. -/
structure Excerpt.PointsAt (source : Source) (e : LexError) (line : String) (pad : List Char) :
    Prop where
  /-- The line is the one on which the error stands. -/
  lineOf : source.lineOf e.span = some line
  /-- It is the line with the number that is printed. -/
  lineAt : source.lineAt e.span.line = some line
  /-- The blank text reaches up to the column. -/
  length : pad.length + 1 = e.span.column
  /-- It repeats the tabs of the line and has spaces elsewhere. -/
  blank : ∀ i, i < pad.length → ∃ c, line.toList[i]? = some c ∧
    pad[i]? = some (if c = '\t' then '\t' else ' ')
  /-- Below the caret is the character that was found, unless it ended the line. -/
  found : ∀ c, e.found = .char c → c ≠ '\n' → c ≠ '\r' → line.toList[pad.length]? = some c

/-- The printed line begins with all that stands on it before the error, and goes on with the
    character that was found unless that is a line break. -/
theorem Excerpt.exists_printed (hr : lx.Represents v) (hs : s.chars = pre ++ post)
    (hfound : e.found = (post.head?.map Found.char).getD .endOfInput)
    (hj : e.Justified lx v pre) :
    ∃ before after, s.lineAt (Position.start.after pre).line = some (String.ofList (before ++ after)) ∧
      (Position.start.after pre).column = before.length + 1 ∧
      ∀ c, e.found = .char c → c ≠ '\n' → c ≠ '\r' → after.head? = some c := by
  obtain ⟨line, hsuffix, hcolumn, hline⟩ := Source.exists_line_of_place hs
  by_cases hbreak : ∃ c, e.found = .char c ∧ Text.isLineBreak c = false
  · -- The character found stays on the line, so all before it does.
    obtain ⟨c, hc, hstays⟩ := hbreak
    obtain ⟨post', rfl⟩ : ∃ post', post = c :: post' := by
      cases post with
      | nil => simp [hfound] at hc
      | cons d post' =>
        have hd : d = c := by simpa [hfound] using hc
        exact ⟨post', by rw [hd]⟩
    have hnl : c ≠ '\n' := by
      rintro rfl
      cases hstays
    refine ⟨line, c :: Text.dropTrailing Text.isLineBreak (post'.takeWhile (· ≠ '\n')), ?_,
      hcolumn, ?_⟩
    · rw [hline, List.takeWhile_cons_of_pos (by simpa using hnl), ← List.singleton_append,
        ← List.append_assoc, Text.dropTrailing_append_of_neg (by simpa using hstays)]
      simp
    · intro d hd _ _
      obtain rfl : c = d := by simpa using hc.symm.trans hd
      rfl
  · -- What is found is a line break or nothing, and comes directly after a lexeme.
    have hstop : ∀ c, e.found = .char c → Text.isLineBreak c = true := by
      intro c hc
      by_contra hno
      exact hbreak ⟨c, hc, by simpa using hno⟩
    have hstays : ∀ b, line.getLast? = some b → Text.isLineBreak b = false := by
      intro b hb
      have hlast : pre.getLast? = some b := by
        obtain ⟨before, rfl⟩ := hsuffix
        rw [List.getLast?_append_of_ne_nil _ (by rintro rfl; cases hb)]
        exact hb
      have hno := hj.not_blank_before hr (fun c hc => Text.isBlank_of_isLineBreak (hstop c hc)) hlast
      rw [← Bool.not_eq_true]
      intro h
      rw [Text.isBlank_of_isLineBreak h] at hno
      cases hno
    refine ⟨line, Text.dropTrailing Text.isLineBreak (post.takeWhile (· ≠ '\n')), ?_, hcolumn, ?_⟩
    · rw [hline, Text.dropTrailing_append_of_neg hstays]
    · intro c hc hn hcr
      rcases Text.isLineBreak_eq_true_iff.mp (hstop c hc) with h | h
      · exact absurd h hn
      · exact absurd h hcr

/-- An excerpt marks one character, or the end of the input. -/
theorem Excerpt.width_eq_one (hs : s.chars = pre ++ post)
    (hspan : e.span = Cursor.span ⟨post, Position.start.after pre⟩) :
    (∃ text, s.snippet e.span = .ok text) ∧ Excerpt.width s e.span = 1 := by
  have hcover : e.span = ⟨Text.byteLength pre, Text.byteLength pre + Text.byteLength (post.take 1),
      (Position.start.after pre).line, (Position.start.after pre).column⟩ := by
    rw [hspan, Cursor.span, Position.after_offset]
    cases post <;> simp [Cursor.current?, Position.start]
  have hsplit : s.chars = pre ++ post.take 1 ++ post.drop 1 := by
    rw [hs, List.append_assoc, List.take_append_drop]
  have hsnippet : s.snippet e.span = .ok (String.ofList (post.take 1)) := by
    rw [hcover]
    exact Source.snippet_boundary hsplit _ _
  refine ⟨⟨_, hsnippet⟩, ?_⟩
  have hdrop := Text.length_dropTrailing_le Text.isLineBreak (post.take 1)
  have htake := List.length_take_le 1 post
  rw [Excerpt.width, hsnippet]
  simp only [String.toList_ofList]
  omega

/-- The blank text before a column repeats the tabs of the line; on a line that reaches the column
    it has its full length. -/
theorem Excerpt.padding_append (before after : List Char) :
    Excerpt.padding (String.ofList (before ++ after)) (before.length + 1) =
      before.map fun c => if c = '\t' then '\t' else ' ' := by
  rw [Excerpt.padding, String.toList_ofList, Nat.add_sub_cancel, List.take_left]

/-! ## Diagnostics -/

theorem Failure.lex_message (name : String) (e : LexError) :
    (Failure.lex name e).message = name ++ ":" ++ (toString e.span.line ++ ":" ++
      toString e.span.column) ++ ": error[" ++ e.code ++ "]: " ++ e.message := rfl

theorem FileScan.diagnostic_ofSource (name : String) {content : String}
    (he : lx.tokenize content = .error e) :
    (FileScan.ofSource lx ⟨name, content⟩).diagnostic =
      some ((Failure.lex name e).message ++ "\n" ++ Excerpt.text ⟨name, content⟩ e.span) := by
  simp only [diagnostic, ofSource, failure?, he, Except.mapError, Option.map_some]

/-- A diagnostic points at the error. Its first line gives the place and the message; below are the
    line of the error, blank text that is as long as what stands before the error, and one caret. -/
theorem diagnostic_points_at_error (hv : v.validate = .ok ()) :
    ∃ lx, Lexicon.compile v = .ok lx ∧ ∀ name content e, lx.tokenize content = .error e →
      ∃ line pad, Excerpt.PointsAt ⟨name, content⟩ e line pad ∧
        (∃ text, (Source.mk name content).snippet e.span = .ok text) ∧
        (FileScan.ofSource lx ⟨name, content⟩).diagnosticRecords = [] ∧
        (FileScan.ofSource lx ⟨name, content⟩).diagnostic =
          let gutter := String.ofList (List.replicate (toString e.span.line).length ' ')
          some (s!"{name}:{e.span.line}:{e.span.column}: error[{e.code}]: {e.message}\n" ++
            (gutter ++ " |\n") ++ s!"{e.span.line} | {line}\n" ++
            (gutter ++ " | " ++ String.ofList pad ++ "^")) := by
  obtain ⟨lx, hc, hr⟩ := Lexicon.compile_represents hv
  refine ⟨lx, hc, fun name content e he => ?_⟩
  obtain ⟨pre, post, p, fault, htext, hread, heq, hj⟩ := exists_refusal_of_error hr he
  have hs : (Source.mk name content).chars = pre.toList ++ post.toList := by
    rw [Source.chars, htext, String.toList_append]
  have hpos : p.position = Position.start.after pre.toList := Progress.position_of_readAll hread
  have hspan : e.span = Cursor.span ⟨post.toList, Position.start.after pre.toList⟩ := by
    rw [heq, hpos]
  have hfound : e.found = (post.toList.head?.map Found.char).getD .endOfInput := by rw [heq]
  have hline : e.span.line = (Position.start.after pre.toList).line := by rw [hspan]; rfl
  have hcolumn : e.span.column = (Position.start.after pre.toList).column := by rw [hspan]; rfl
  obtain ⟨before, after, hlineAt, hlength, hafter⟩ := Excerpt.exists_printed hr hs hfound hj
  obtain ⟨⟨text, hsnippet⟩, hwidth⟩ := Excerpt.width_eq_one hs hspan
  rw [← hline] at hlineAt
  rw [← hcolumn] at hlength
  have hlineOf : (Source.mk name content).lineOf e.span = some (String.ofList (before ++ after)) := by
    have hstart : e.span.start = Text.byteLength pre.toList := by
      rw [hspan]
      simp [Cursor.span, Position.start]
    rw [Source.lineOf, hstart, Source.lineCol_boundary hs, ← hline, hlineAt]
  refine ⟨String.ofList (before ++ after), before.map fun c => if c = '\t' then '\t' else ' ',
    ⟨hlineOf, hlineAt, by rw [List.length_map, hlength], ?_, ?_⟩, ⟨text, hsnippet⟩, ?_, ?_⟩
  · intro i hi
    rw [List.length_map] at hi
    refine ⟨before[i], ?_, ?_⟩
    · rw [String.toList_ofList, List.getElem?_append_left hi, List.getElem?_eq_getElem hi]
    · rw [List.getElem?_map, List.getElem?_eq_getElem hi, Option.map_some]
  · intro c hc hn hcr
    rw [String.toList_ofList, List.length_map, List.getElem?_append_right (Nat.le_refl _),
      Nat.sub_self, ← List.head?_eq_getElem?]
    exact hafter c hc hn hcr
  · simp [FileScan.diagnosticRecords, FileScan.ofSource, FileScan.failure?, he, Except.mapError,
      Excerpt.records, hsnippet]
  · have hcaret : String.ofList (List.replicate 1 '^') = "^" := rfl
    have hself : ∀ text : String, toString text = text := fun _ => rfl
    rw [FileScan.diagnostic_ofSource name he, Excerpt.text, hlineOf, hwidth, Option.getD_some,
      hlength, Excerpt.padding_append, hcaret]
    simp only [Failure.lex_message, hself, hlength, String.append_assoc]

/-- A number without its fraction, behind a tab on a line that ends with carriage returns: the line
    break is found in column four, the printed line ends before it, and the caret still has three
    blanks before it. -/
theorem diagnostic_of_missing_fraction :
    Vocabulary.validate ⟨["if"], ["<"]⟩ = .ok () ∧
      ∃ lx e, Lexicon.compile ⟨["if"], ["<"]⟩ = .ok lx ∧
        lx.tokenize "a\n\t3.\r\r\n" = .error e ∧ e.found = .char '\r' ∧
        ∃ pad, Excerpt.PointsAt ⟨"t", "a\n\t3.\r\r\n"⟩ e "\t3." pad ∧ pad.length = 3 := by
  have hv : Vocabulary.validate ⟨["if"], ["<"]⟩ = .ok () := rfl
  obtain ⟨lx, hc, h⟩ := diagnostic_points_at_error hv
  have hrun : (Lexicon.compile ⟨["if"], ["<"]⟩).toOption.map (·.tokenize "a\n\t3.\r\r\n") =
      some (.error ⟨.malformedNumber .missingFraction, .char '\r', "3.", ⟨5, 6, 2, 4⟩⟩) := rfl
  rw [hc] at hrun
  have he := Option.some.inj hrun
  obtain ⟨line, pad, hpoints, -, -, -⟩ := h "t" _ _ he
  have hprinted : (Source.mk "t" "a\n\t3.\r\r\n").lineAt 2 = some "\t3." := by decide +kernel
  obtain rfl : "\t3." = line := Option.some.inj (hprinted.symm.trans hpoints.lineAt)
  exact ⟨hv, lx, _, hc, he, rfl, pad, hpoints, by simpa using hpoints.length⟩

end Lexis
