import Lexis.Proofs.Scan.Resume

/-!
  Lexis.Proofs.Separation

  White space separates. The scan of `a`, white space and `b` is the scan of `a` followed by the
  scan of `b`, with the places of the second shifted; the white space does to `a` what the end of
  the input would do. Where `a` is accepted, the machine stands between tokens after the white
  space, and `b` is read on from there; where `a` is not, the scan never gets to `b`.
-/

namespace Lexis

open Scan

variable {lx : Lexicon} {v : Vocabulary} {a b ws : String} {ts : List Token} {e : LexError}

namespace Scan

/-- After a text that is accepted, and white space, the machine stands between tokens. -/
theorem exists_between_of_tokenize (hr : lx.Represents v) (hne : ws ≠ "")
    (hws : ∀ c ∈ ws.toList, Text.isBlank c = true) (ha : lx.tokenize a = .ok ts) :
    ∃ d q, Progress.initial.readAll lx (a ++ ws).toList = .ok q ∧ Between v d q ∧
      d.chars = (a ++ ws).toList ∧ d.tokens = ts := by
  rw [tokenize_eq] at ha
  cases hread : Progress.initial.readAll lx a.toList with
  | error e => simp [hread, Except.bind] at ha
  | ok p =>
    rw [hread] at ha
    obtain ⟨d, hs, hchars, rfl⟩ := (stands_of_readAll hr hread).settles hr ha
    obtain ⟨q, hq, hb⟩ := hs.readAll_separator hr (by simpa using hne) hws
    refine ⟨_, q, ?_, hb, ?_, rfl⟩
    · rw [String.toList_append, Progress.readAll_append, hread]
      exact hq
    · simp [Layout.chars, ← hchars]

theorem tokenize_append_of_ok (hr : lx.Represents v) (hne : ws ≠ "")
    (hws : ∀ c ∈ ws.toList, Text.isBlank c = true) (ha : lx.tokenize a = .ok ts) (b : String) :
    lx.tokenize (a ++ ws ++ b) =
      shiftResult (a ++ ws).toList ((ts.getLast?.map Token.value).getD "")
        (fun us => ts ++ us.map (Token.shift (a ++ ws).toList)) (lx.tokenize b) := by
  obtain ⟨d, q, hq, hb, hchars, hts⟩ := exists_between_of_tokenize hr hne hws ha
  -- Place, last lexeme and tokens at the end of the white space are those of `a`.
  have hpos : q.position = Position.start.after (a ++ ws).toList := by rw [hb.position, hchars]
  have hlast : q.state.lexeme = (ts.getLast?.map Token.value).getD "" := by
    rw [hb.lexeme, d.lastValue_eq, hts]
  have htokens : q.tokens.toList = ts := hb.tokens.trans hts
  have hresume := tokenize_resume hr hpos hb.mode hb.kind b
  rw [hlast, htokens] at hresume
  rw [tokenize_eq, String.toList_append, Progress.readAll_append, hq]
  exact hresume

/-- An error at a character leaves nothing to read. -/
theorem tokenize_append_of_error_char (hr : lx.Represents v) {c : Char}
    (ha : lx.tokenize a = .error e) (hc : e.found = .char c) (s : String) :
    lx.tokenize (a ++ s) = .error e := by
  rcases tokenize_eq_error_iff.mp ha with hread | ⟨p, hread, hclose⟩
  · refine tokenize_eq_error_iff.mpr (Or.inl ?_)
    rw [String.toList_append, Progress.readAll_append, hread]
    rfl
  · obtain ⟨-, -, rfl⟩ := (stands_of_readAll hr hread).error_of_close hclose
    simp [Progress.refusedAtEnd] at hc

/-- An error at the end of the input shows at the white space instead. -/
theorem tokenize_append_of_error_end (hr : lx.Represents v) {w : Char}
    (hw : Text.isBlank w = true) (ha : lx.tokenize a = .error e) (hend : e.found = .endOfInput)
    {s : String} (hs : s.toList.head? = some w) :
    lx.tokenize (a ++ s) = .error { e with
      found := .char w, span := { e.span with stop := e.span.start + w.utf8Size } } := by
  rcases tokenize_eq_error_iff.mp ha with hread | ⟨p, hread, hclose⟩
  · obtain ⟨_, c, _, p, -, hpre, hread⟩ := Progress.readAll_eq_error_iff.mp hread
    obtain ⟨fault, rfl⟩ := (stands_of_readAll hr hpre).exists_fault_of_read hread
    simp at hend
  · -- A lexeme that may not end is refused for the same reason at a blank and at the end.
    have hcls : lx.classify w = .whitespace := Lexicon.classify_eq_whitespace_iff.mpr hw
    obtain ⟨hwithin, hacc, rfl⟩ := (stands_of_readAll hr hread).error_of_close hclose
    have hblank : p.read lx w = .error (p.refusedAt lx w) :=
      Progress.read_refused_within hwithin (next?_of_whitespace hcls) (Or.inl hacc)
    obtain ⟨rest, hrest⟩ := List.head?_eq_some_iff.mp hs
    refine tokenize_eq_error_iff.mpr (Or.inl (Progress.readAll_eq_error_iff.mpr ?_))
    refine ⟨a.toList, w, rest, p, by rw [String.toList_append, hrest], hread, ?_⟩
    rw [hblank, Progress.refusedAt, hcls]
    rfl

end Scan

/-- White space is a full separator, and the end of the input acts as white space.

    Two texts with white space between them are accepted exactly when both are, and the tokens are
    those of the first and then those of the second, shifted by all that stands before it. An error
    of the first text is the error of the whole; one at the end of the first text is found at the
    white space instead. An error of the second text is shifted like its tokens; where no lexeme
    had been begun in the second text, the context is the last lexeme of the first. -/
theorem tokenize_separated (hv : v.validate = .ok ()) :
    ∃ lx, Lexicon.compile v = .ok lx ∧ ∀ a ws b : String, ws ≠ "" →
      (∀ c ∈ ws.toList, Text.isBlank c = true) →
      ((∃ ts, lx.tokenize (a ++ ws ++ b) = .ok ts) ↔
        (∃ ts, lx.tokenize a = .ok ts) ∧ ∃ us, lx.tokenize b = .ok us) ∧
      (∀ ts us, lx.tokenize a = .ok ts → lx.tokenize b = .ok us →
        lx.tokenize (a ++ ws ++ b) = .ok (ts ++ us.map (Token.shift (a ++ ws).toList))) ∧
      (∀ e c, lx.tokenize a = .error e → e.found = .char c →
        lx.tokenize (a ++ ws ++ b) = .error e) ∧
      (∀ e w, lx.tokenize a = .error e → e.found = .endOfInput → ws.toList.head? = some w →
        lx.tokenize (a ++ ws ++ b) = .error { e with
          found := .char w, span := { e.span with stop := e.span.start + w.utf8Size } }) ∧
      ∀ ts e, lx.tokenize a = .ok ts → lx.tokenize b = .error e →
        lx.tokenize (a ++ ws ++ b) = .error { e with
          context := if e.context = "" then (ts.getLast?.map Token.value).getD "" else e.context
          span := e.span.shift (a ++ ws).toList } := by
  obtain ⟨lx, hc, hr⟩ := Lexicon.compile_represents hv
  refine ⟨lx, hc, fun a ws b hne hws => ?_⟩
  have hright : ∀ ts, lx.tokenize a = .ok ts → lx.tokenize (a ++ ws ++ b) =
      shiftResult (a ++ ws).toList ((ts.getLast?.map Token.value).getD "")
        (fun us => ts ++ us.map (Token.shift (a ++ ws).toList)) (lx.tokenize b) := by
    intro ts ha
    exact tokenize_append_of_ok hr hne hws ha b
  have hchar : ∀ e c, lx.tokenize a = .error e → e.found = .char c →
      lx.tokenize (a ++ ws ++ b) = .error e := by
    intro e c ha hf
    rw [String.append_assoc]
    exact tokenize_append_of_error_char hr ha hf (ws ++ b)
  have hend : ∀ e w, lx.tokenize a = .error e → e.found = .endOfInput →
      ws.toList.head? = some w → lx.tokenize (a ++ ws ++ b) = .error { e with
        found := .char w, span := { e.span with stop := e.span.start + w.utf8Size } } := by
    intro e w ha hf hw
    have hblank : Text.isBlank w = true := hws w (List.mem_of_head? hw)
    rw [String.append_assoc]
    refine tokenize_append_of_error_end hr hblank ha hf ?_
    rw [String.toList_append, List.head?_append, hw]
    rfl
  refine ⟨⟨?_, ?_⟩, ?_, hchar, hend, ?_⟩
  -- An error of either text would be an error of the whole.
  · rintro ⟨ts, hts⟩
    cases ha : lx.tokenize a with
    | ok us =>
      rw [hright us ha] at hts
      cases hb : lx.tokenize b with
      | ok us' => exact ⟨⟨us, rfl⟩, us', rfl⟩
      | error e => simp [hb, shiftResult] at hts
    | error e =>
      exfalso
      cases hf : e.found with
      | char c => simp [hchar e c ha hf] at hts
      | endOfInput =>
        obtain ⟨w, rest, hw⟩ := List.exists_cons_of_ne_nil (l := ws.toList) (by simpa using hne)
        simp [hend e w ha hf (by simp [hw])] at hts
  · rintro ⟨⟨ts, ha⟩, us, hb⟩
    exact ⟨_, by rw [hright ts ha, hb]; rfl⟩
  · intro ts us ha hb
    rw [hright ts ha, hb]
    rfl
  · intro ts e ha hb
    rw [hright ts ha, hb]
    rfl

/-- A line end between two texts, a number cut off before a blank, and a text that begins with a
    character of no use: the last one still names the keyword before it. -/
theorem tokenize_separated_lines :
    Vocabulary.validate ⟨["if"], ["<", "<<="]⟩ = .ok () ∧
      ∃ lx, Lexicon.compile ⟨["if"], ["<", "<<="]⟩ = .ok lx ∧
        lx.tokenize ("if <" ++ " \n" ++ "x") = .ok [⟨"if", .keyword, ⟨0, 2, 1, 1⟩⟩,
          ⟨"<", .operator, ⟨3, 4, 1, 4⟩⟩, ⟨"x", .word, ⟨6, 7, 2, 1⟩⟩] ∧
        lx.tokenize ("1." ++ " " ++ "x") =
          .error ⟨.malformedNumber .missingFraction, .char ' ', "1.", ⟨2, 3, 1, 3⟩⟩ ∧
        lx.tokenize ("if" ++ " " ++ ".") =
          .error ⟨.unexpectedCharacter .dot, .char '.', "if", ⟨3, 4, 1, 4⟩⟩ := by
  have hv : Vocabulary.validate ⟨["if"], ["<", "<<="]⟩ = .ok () := rfl
  obtain ⟨lx, hc, h⟩ := tokenize_separated hv
  have hruns : (Lexicon.compile ⟨["if"], ["<", "<<="]⟩).toOption.map (fun lx =>
      (lx.tokenize "if <", lx.tokenize "x", lx.tokenize "1.", lx.tokenize "if",
        lx.tokenize ".")) =
      some (.ok [⟨"if", .keyword, ⟨0, 2, 1, 1⟩⟩, ⟨"<", .operator, ⟨3, 4, 1, 4⟩⟩],
        .ok [⟨"x", .word, ⟨0, 1, 1, 1⟩⟩],
        .error ⟨.malformedNumber .missingFraction, .endOfInput, "1.", ⟨2, 2, 1, 3⟩⟩,
        .ok [⟨"if", .keyword, ⟨0, 2, 1, 1⟩⟩],
        .error ⟨.unexpectedCharacter .dot, .char '.', "", ⟨0, 1, 1, 1⟩⟩) := rfl
  rw [hc] at hruns
  simp only [Except.toOption, Option.map_some, Option.some.injEq, Prod.mk.injEq] at hruns
  obtain ⟨hif, hx, hone, hkeyword, hdot⟩ := hruns
  refine ⟨hv, lx, hc, ?_, ?_, ?_⟩
  · exact (h "if <" " \n" "x" (by decide) (List.all_eq_true.mp rfl)).2.1 _ _ hif hx
  · exact (h "1." " " "x" (by decide) (List.all_eq_true.mp rfl)).2.2.2.1 _ ' ' hone rfl rfl
  · exact (h "if" " " "." (by decide) (List.all_eq_true.mp rfl)).2.2.2.2 _ _ hkeyword hdot

end Lexis
