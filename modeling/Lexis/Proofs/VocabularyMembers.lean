import Lexis.Report.Vocabulary
import Lexis.Proofs.Scan.Transfer
import Lexis.Proofs.Trie.Enumeration

/-!
  Lexis.Proofs.VocabularyMembers

  A vocabulary counts as two sets. The order and the repetitions of its lists decide how the nodes
  of the trees are numbered and in which order the operator characters are kept, and nothing that a
  scan returns: vocabularies with the same members give the same tokens and the same errors. The
  lists that are shown to a user have the members of the lists they were read from, so they make
  the same lexicon again.
-/

namespace Lexis

open Scan

variable {lx lx' : Lexicon} {v v' : Vocabulary}

/-- Both vocabularies have the same keywords and the same operators, in any order and number. -/
structure Vocabulary.SameMembers (v v' : Vocabulary) : Prop where
  keywords : ∀ s, s ∈ v'.keywords ↔ s ∈ v.keywords
  operators : ∀ s, s ∈ v'.operators ↔ s ∈ v.operators

theorem Vocabulary.SameMembers.usable (h : v.SameMembers v') (hu : v.Usable) : v'.Usable where
  keywords k hk := hu.keywords k ((h.keywords k).mp hk)
  operators o ho := hu.operators o ((h.operators o).mp ho)

/-- A lexeme keeps its kind under a list with the same keywords. -/
theorem Vocabulary.SameMembers.relabel_eq (h : v.SameMembers v') {s : String} {kind : TokenKind}
    (hs : v.IsLexeme s kind) : kind.relabel v' s = kind := by
  cases kind with
  | keyword => exact if_pos ((h.keywords s).mpr hs)
  | word => exact if_neg (mt (h.keywords s).mp hs.2)
  | operator | int | float => rfl

/-- Every token carries a lexeme of its kind. -/
theorem Scan.isLexeme_of_mem_tokens (hr : lx.Represents v) {text : String} {ts : List Token}
    (hts : lx.tokenize text = .ok ts) {t : Token} (ht : t ∈ ts) : v.IsLexeme t.value t.kind := by
  obtain ⟨d, hd, rfl, rfl⟩ := (tokenize_eq_ok_iff hr text ts).mp hts
  have hlabel : t.label ∈ d.labels := d.map_label_tokens ▸ List.mem_map_of_mem ht
  obtain ⟨x, hx, hxt⟩ := List.mem_map.mp hlabel
  obtain ⟨hvalue, hkind⟩ := Prod.mk.inj hxt
  exact hvalue ▸ hkind ▸ hd.lexemes x hx

theorem Vocabulary.SameMembers.tokenize_eq (h : v.SameMembers v') (hr : lx.Represents v)
    (hr' : lx'.Represents v') (text : String) : lx'.tokenize text = lx.tokenize text := by
  have hsame : SameOperators lx lx' v v' := ⟨hr, hr', h.operators⟩
  rw [hsame.tokenize_transfer]
  cases hts : lx.tokenize text with
  | error e => rfl
  | ok ts =>
    have hid : ∀ t ∈ ts, t.relabel v' = id t := by
      intro t ht
      rw [Token.relabel, h.relabel_eq (isLexeme_of_mem_tokens hr hts ht)]
      rfl
    rw [Except.map, List.map_congr_left hid, List.map_id]

/-! ## The lists of a lexicon -/

/-- The lists of a report have the members of the vocabulary. -/
theorem VocabularyReport.sameMembers (hu : v.Usable) (h : Lexicon.compile v = .ok lx) :
    v.SameMembers ⟨(ofLexicon lx).keywords, (ofLexicon lx).operators⟩ where
  keywords _ := Trie.mem_words_iff (Lexicon.builds_of_compile h).1 fun k hk => (hu.keywords k hk).1
  operators _ :=
    Trie.mem_words_iff (Lexicon.builds_of_compile h).2 fun o ho => (hu.operators o ho).1

/-- Tokens and errors depend on the members of the two lists only, whatever their order and number;
    the lists of the report make a lexicon that reads every text alike. -/
theorem tokenize_depends_on_members (hv : v.validate = .ok ()) :
    ∃ lx, Lexicon.compile v = .ok lx ∧
      (∀ v' : Vocabulary, v'.validate = .ok () → v.SameMembers v' →
        ∃ lx', Lexicon.compile v' = .ok lx' ∧
          ∀ text, lx'.tokenize text = lx.tokenize text) ∧
      ∃ lx', Lexicon.compile ⟨(VocabularyReport.ofLexicon lx).keywords,
          (VocabularyReport.ofLexicon lx).operators⟩ = .ok lx' ∧
        ∀ text, lx'.tokenize text = lx.tokenize text := by
  obtain ⟨lx, hc, hr⟩ := Lexicon.compile_represents hv
  have hsame : ∀ v' : Vocabulary, v'.validate = .ok () → v.SameMembers v' →
      ∃ lx', Lexicon.compile v' = .ok lx' ∧ ∀ text, lx'.tokenize text = lx.tokenize text := by
    intro v' hv' h
    obtain ⟨lx', hc', hr'⟩ := Lexicon.compile_represents hv'
    exact ⟨lx', hc', h.tokenize_eq hr hr'⟩
  have hreport := VocabularyReport.sameMembers hr.usable hc
  exact ⟨lx, hc, hsame, hsame _ (Vocabulary.validate_eq_ok_iff.mpr (hreport.usable hr.usable))
    hreport⟩

/-- The same keywords in another order, one of them twice: the node of `in` has another number, and
    every text is read alike, one with both keywords and a longest operator among them. -/
theorem tokenize_with_reordered_keywords :
    Vocabulary.validate ⟨["in", "if", "in"], ["<", "<<="]⟩ = .ok () ∧
      Vocabulary.SameMembers ⟨["in", "if", "in"], ["<", "<<="]⟩ ⟨["if", "in"], ["<<=", "<"]⟩ ∧
      ∃ lx lx', Lexicon.compile ⟨["in", "if", "in"], ["<", "<<="]⟩ = .ok lx ∧
        Lexicon.compile ⟨["if", "in"], ["<<=", "<"]⟩ = .ok lx' ∧
        lx.keywords.walk? "in" = some 2 ∧ lx'.keywords.walk? "in" = some 3 ∧
        (∀ text, lx'.tokenize text = lx.tokenize text) ∧
        lx'.tokenize "if<<=in" = .ok [⟨"if", .keyword, ⟨0, 2, 1, 1⟩⟩,
          ⟨"<<=", .operator, ⟨2, 5, 1, 3⟩⟩, ⟨"in", .keyword, ⟨5, 7, 1, 6⟩⟩] := by
  have hv : Vocabulary.validate ⟨["in", "if", "in"], ["<", "<<="]⟩ = .ok () := rfl
  have hsame : Vocabulary.SameMembers ⟨["in", "if", "in"], ["<", "<<="]⟩
      ⟨["if", "in"], ["<<=", "<"]⟩ := ⟨by simp [or_comm], by simp [or_comm]⟩
  obtain ⟨lx, hc, h, -⟩ := tokenize_depends_on_members hv
  obtain ⟨lx', hc', htext⟩ := h ⟨["if", "in"], ["<<=", "<"]⟩ rfl hsame
  have hnode : (Lexicon.compile ⟨["in", "if", "in"], ["<", "<<="]⟩).toOption.map
      (·.keywords.walk? "in") = some (some 2) := rfl
  have hnode' : (Lexicon.compile ⟨["if", "in"], ["<<=", "<"]⟩).toOption.map
      (·.keywords.walk? "in") = some (some 3) := rfl
  have hrun : (Lexicon.compile ⟨["in", "if", "in"], ["<", "<<="]⟩).toOption.map
      (·.tokenize "if<<=in") = some (.ok [⟨"if", .keyword, ⟨0, 2, 1, 1⟩⟩,
        ⟨"<<=", .operator, ⟨2, 5, 1, 3⟩⟩, ⟨"in", .keyword, ⟨5, 7, 1, 6⟩⟩]) := rfl
  rw [hc] at hnode hrun
  rw [hc'] at hnode'
  exact ⟨hv, hsame, lx, lx', hc, hc', Option.some.inj hnode, Option.some.inj hnode', htext,
    (htext _).trans (Option.some.inj hrun)⟩

end Lexis
