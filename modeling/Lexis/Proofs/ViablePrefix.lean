import Lexis.Proofs.Scan.Invariant

/-!
  Lexis.Proofs.ViablePrefix

  Errors come as early as they can. The text before an error can be completed to one that is
  accepted, so nothing was wrong until then; the character at the error cannot be followed by
  anything that would mend it. From every state that a scan can reach there is a completion
  (`Stands.exists_completion`), because every beginning of an operator leads to an operator.
-/

namespace Lexis

open Scan

variable {lx : Lexicon} {v : Vocabulary} {p q : Progress} {c : Char} {pre cs : List Char}
  {e : LexError}

namespace Scan

/-! ## What has been read can be completed -/

theorem Stands.exists_completion (hr : lx.Represents v) (h : Stands lx v pre p) :
    ∃ es ts, (p.readAll lx es).bind (Progress.close lx) = .ok ts := by
  cases h with
  | @between d hb _ _ => exact ⟨[], _, Progress.close_gap hb.mode⟩
  | @inside d hi _ =>
    obtain ⟨es, kind, hlex⟩ := Scan.exists_completion hr hi.within
    have hrest : (String.ofList (p.state.lexeme.toList ++ es)).toList =
        p.state.lexeme.toList ++ es := String.toList_ofList
    obtain ⟨q, hq, hin, heq⟩ := hi.readAll hr hlex hrest
    have hacc : q.state.mode.accept? lx q.state.kind = some kind :=
      accept?_of_isLexeme hr hin.within (heq ▸ hlex)
    refine ⟨es, (d.push q.state.lexeme kind).tokens, ?_⟩
    rw [hq]
    exact (Settles.inside hin hacc rfl).close hr

/-- What could be read is the beginning of a text that is accepted. -/
theorem exists_suffix_ok (hr : lx.Represents v) (h : Progress.initial.readAll lx pre = .ok p) :
    ∃ s ts, lx.tokenize (String.ofList pre ++ s) = .ok ts := by
  obtain ⟨es, ts, hes⟩ := (stands_of_readAll hr h).exists_completion hr
  refine ⟨String.ofList es, ts, ?_⟩
  rw [tokenize_eq]
  simp only [String.toList_append, String.toList_ofList, Progress.readAll_append, h]
  exact hes

/-- The place that a reading has reached is a character boundary, and the line table agrees with
    its line and column. -/
theorem place_of_readAll {post : List Char} {text : String} (name : String)
    (h : Progress.initial.readAll lx pre = .ok p) (htext : text.toList = pre ++ post) :
    p.position.offset = Text.byteLength pre ∧
      Text.isBoundary text.toList p.position.offset = true ∧
      (p.position.line, p.position.column) =
        (Source.mk name text).lineCol p.position.offset := by
  have hpos : p.position = Position.start.after pre := Progress.position_of_readAll h
  have hoff : p.position.offset = Text.byteLength pre := by simp [hpos, Position.start]
  have hchars : (Source.mk name text).chars = pre ++ post := htext
  refine ⟨hoff, ?_, ?_⟩
  · simp [htext, hoff, Text.isBoundary, Text.dropBytes?_append]
  · rw [hoff, Source.lineCol_boundary hchars, hpos]

end Scan

/-- Errors are reported at the earliest place: what comes before can be completed, and what is found
    there can not. -/
theorem error_at_earliest_place (hv : v.validate = .ok ()) :
    ∃ lx, Lexicon.compile v = .ok lx ∧ ∀ name text e, lx.tokenize text = .error e →
      Text.isBoundary text.toList e.span.start = true ∧
      (e.span.line, e.span.column) = (Source.mk name text).lineCol e.span.start ∧
      ∃ pre post : String, text = pre ++ post ∧ pre.utf8ByteSize = e.span.start ∧
        (∃ s ts, lx.tokenize (pre ++ s) = .ok ts) ∧
        (∀ c, e.found = .char c → post.toList.head? = some c ∧
          e.span.stop = e.span.start + c.utf8Size ∧
          ∀ s, lx.tokenize (pre.push c ++ s) = .error e) ∧
        (e.found = .endOfInput → e.span.start = text.utf8ByteSize ∧
          e.span.stop = e.span.start) := by
  obtain ⟨lx, hc, hr⟩ := Lexicon.compile_represents hv
  refine ⟨lx, hc, fun name text e he => ?_⟩
  rcases tokenize_eq_error_iff.mp he with hread | ⟨p, hread, hclose⟩
  · obtain ⟨pre, c, post, p, htext, hpre, hcp⟩ := Progress.readAll_eq_error_iff.mp hread
    obtain ⟨hoff, hboundary, hplace⟩ := place_of_readAll name hpre htext
    obtain ⟨fault, rfl⟩ := (stands_of_readAll hr hpre).exists_fault_of_read hcp
    refine ⟨hboundary, hplace, String.ofList pre, String.ofList (c :: post), ?_, ?_,
      exists_suffix_ok hr hpre, ?_, by simp⟩
    · rw [← String.ofList_append, ← htext, String.ofList_toList]
    · rw [← Text.byteLength_toList, String.toList_ofList]
      exact hoff.symm
    · intro b hb
      obtain rfl : c = b := by simpa using hb
      refine ⟨by simp, rfl, fun s => ?_⟩
      -- Nothing after the character has been looked at.
      rw [tokenize_eq_error_iff, Progress.readAll_eq_error_iff]
      exact Or.inl ⟨pre, c, s.toList, p, by simp, hpre, hcp⟩
  · have htext : text.toList = text.toList ++ [] := (List.append_nil _).symm
    obtain ⟨hoff, hboundary, hplace⟩ := place_of_readAll name hread htext
    have hsize : p.position.offset = text.utf8ByteSize := by simpa using hoff
    obtain ⟨-, -, rfl⟩ := (stands_of_readAll hr hread).error_of_close hclose
    refine ⟨hboundary, hplace, text, "", by simp, hsize.symm, ?_,
      by simp [Progress.refusedAtEnd], fun _ => ⟨hsize, rfl⟩⟩
    simpa using exists_suffix_ok hr hread

/-- With the operators `<` and `<<=`, the text `a<<b` is still good after `a<<`, which `a<<=`
    completes, and lost at the `b`. -/
theorem error_after_half_an_operator :
    Vocabulary.validate ⟨["if"], ["<", "<<="]⟩ = .ok () ∧
      ∃ lx, Lexicon.compile ⟨["if"], ["<", "<<="]⟩ = .ok lx ∧
        ∃ e, lx.tokenize "a<<b" = .error e ∧ e.span = ⟨3, 4, 1, 4⟩ ∧
          (∃ s ts, lx.tokenize ("a<<" ++ s) = .ok ts) ∧
          ∀ s, lx.tokenize ("a<<b" ++ s) = .error e := by
  have hv : Vocabulary.validate ⟨["if"], ["<", "<<="]⟩ = .ok () := rfl
  obtain ⟨lx, hc, h⟩ := error_at_earliest_place hv
  have hrun : (Lexicon.compile ⟨["if"], ["<", "<<="]⟩).toOption.map (·.tokenize "a<<b") =
      some (.error ⟨.invalidOperator .incomplete, .char 'b', "<<", ⟨3, 4, 1, 4⟩⟩) := rfl
  rw [hc] at hrun
  have he := Option.some.inj hrun
  obtain ⟨-, -, pre, post, htext, hsize, hok, hchar, -⟩ := h "t" _ _ he
  have htake := Text.takeBytes?_append pre.toList post.toList
  rw [← String.toList_append, ← htext, Text.byteLength_toList, hsize] at htake
  obtain rfl : "a<<" = pre := String.toList_inj.mp (Option.some.inj htake)
  exact ⟨hv, lx, hc, _, he, rfl, hok, (hchar 'b' rfl).2.2⟩

end Lexis
