import Lexis.Proofs.Scan.Invariant

/-!
  Lexis.Proofs.Grammar

  The grammar decides every text. A text is accepted exactly when it has a valid layout, it then
  has exactly one, and its tokens carry the lexemes of that layout.
-/

namespace Lexis

open Scan

variable {lx : Lexicon} {v : Vocabulary}

/-- A text has at most one valid layout: two of them would be two results of one scan. -/
theorem Layout.Valid.unique (hr : lx.Represents v) {d d' : Layout} (hd : d.Valid v)
    (hd' : d'.Valid v) (h : d.text = d'.text) : d = d' := by
  have h₁ : lx.tokenize d.text = .ok d.tokens := (tokenize_eq_ok_iff hr _ _).mpr ⟨d, hd, rfl, rfl⟩
  have h₂ : lx.tokenize d.text = .ok d'.tokens :=
    (tokenize_eq_ok_iff hr _ _).mpr ⟨d', hd', h.symm, rfl⟩
  refine Layout.eq_of_tokens_eq (Except.ok.inj (h₁.symm.trans h₂)) ?_
  rw [← Layout.toList_text, h, Layout.toList_text]

/-- The exact grammar of a vocabulary: the tokens of a text are the lexemes of its layout, the
    layout is unique, and a scan fails only on texts without one. -/
theorem tokenize_iff_layout (hv : v.validate = .ok ()) :
    ∃ lx, Lexicon.compile v = .ok lx ∧ ∀ text : String,
      (∀ labels, (∃ ts, lx.tokenize text = .ok ts ∧ ts.map Token.label = labels) ↔
        ∃ d : Layout, d.Valid v ∧ d.text = text ∧ d.labels = labels) ∧
      (∀ d d' : Layout, d.Valid v → d'.Valid v → d.text = text → d'.text = text → d = d') ∧
      ((∃ e, lx.tokenize text = .error e) ↔ ¬∃ d : Layout, d.Valid v ∧ d.text = text) := by
  obtain ⟨lx, hc, hr⟩ := Lexicon.compile_represents hv
  refine ⟨lx, hc, fun text => ⟨fun labels => ?_, fun d d' hd hd' ht ht' => ?_, ?_⟩⟩
  · constructor
    · rintro ⟨ts, hts, rfl⟩
      obtain ⟨d, hd, htext, rfl⟩ := (tokenize_eq_ok_iff hr text ts).mp hts
      exact ⟨d, hd, htext, d.map_label_tokens.symm⟩
    · rintro ⟨d, hd, htext, rfl⟩
      exact ⟨d.tokens, (tokenize_eq_ok_iff hr text _).mpr ⟨d, hd, htext, rfl⟩, d.map_label_tokens⟩
  · exact hd.unique hr hd' (ht.trans ht'.symm)
  · constructor
    · rintro ⟨e, he⟩ ⟨d, hd, htext⟩
      rw [(tokenize_eq_ok_iff hr text d.tokens).mpr ⟨d, hd, htext, rfl⟩] at he
      cases he
    · intro hno
      cases h : lx.tokenize text with
      | error e => exact ⟨e, rfl⟩
      | ok ts =>
        obtain ⟨d, hd, htext, -⟩ := (tokenize_eq_ok_iff hr text ts).mp h
        exact absurd ⟨d, hd, htext⟩ hno

/-- With the operators `<` and `<<=`, the text `if x<3.5 ` has a layout in which the operator
    touches both of its neighbours. -/
theorem tokenize_touching_operator :
    Vocabulary.validate ⟨["if"], ["<", "<<="]⟩ = .ok () ∧
      ∃ lx, Lexicon.compile ⟨["if"], ["<", "<<="]⟩ = .ok lx ∧
        ∃ ts, lx.tokenize "if x<3.5 " = .ok ts ∧ ts.map Token.label =
          [("if", .keyword), ("x", .word), ("<", .operator), ("3.5", .float)] := by
  have hv : Vocabulary.validate ⟨["if"], ["<", "<<="]⟩ = .ok () := rfl
  obtain ⟨lx, hc, hlx⟩ := tokenize_iff_layout hv
  refine ⟨hv, lx, hc, ((hlx "if x<3.5 ").1 _).mpr
    ⟨⟨[⟨"", "if", .keyword⟩, ⟨" ", "x", .word⟩, ⟨"", "<", .operator⟩, ⟨"", "3.5", .float⟩], " "⟩,
      ?_, rfl, rfl⟩⟩
  refine ⟨?_, List.all_eq_true.mp rfl, ?_, ?_⟩
  · simp only [List.mem_cons, List.not_mem_nil, or_false, forall_eq_or_imp, forall_eq]
    exact ⟨by simp, List.all_eq_true.mp rfl, by simp, by simp⟩
  · simp only [List.mem_cons, List.not_mem_nil, or_false, forall_eq_or_imp, forall_eq]
    exact ⟨by simp [Vocabulary.IsLexeme], ⟨⟨by simp, List.all_eq_true.mp rfl⟩, by decide⟩,
      by simp [Vocabulary.IsLexeme], ['3'], ['5'], .singleton rfl, .singleton rfl, rfl⟩
  · simp [Piece.Meets, Piece.Admits]

end Lexis
