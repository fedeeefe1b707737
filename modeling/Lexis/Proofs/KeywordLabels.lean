import Lexis.Proofs.VocabularyMembers

/-!
  Lexis.Proofs.KeywordLabels

  Keywords are labels and nothing else. The keyword tree is walked along with every word and asked
  at three different exits, but two vocabularies that share their operators cut every text at the
  same places and fail with the same error; only the kinds of their words differ, and each run takes
  those from its own keyword list.

  The two runs are compared through `SameOperators.tokenize_transfer`: the second result is the
  first one relabelled.
-/

namespace Lexis

open Scan

variable {lx lx' : Lexicon} {v v' : Vocabulary} {t : Token}

/-! ## What a label may change -/

/-- The same lexeme at the same place, with the same kind unless it is a word. -/
structure Token.SameUpToLabel (t t' : Token) : Prop where
  value : t'.value = t.value
  span : t'.span = t.span
  kind : ∀ kind : TokenKind, kind = .int ∨ kind = .float ∨ kind = .operator →
    (t'.kind = kind ↔ t.kind = kind)

theorem Token.sameUpToLabel_relabel (v : Vocabulary) (t : Token) :
    t.SameUpToLabel (t.relabel v) := by
  refine ⟨rfl, rfl, ?_⟩
  intro kind hkind
  show t.kind.relabel v t.value = kind ↔ t.kind = kind
  cases hk : t.kind with
  | keyword | word =>
    -- The new kind is one of the two labels, and `kind` is neither.
    rw [TokenKind.relabel]
    rcases hkind with rfl | rfl | rfl <;> split <;> simp
  | operator | int | float => rfl

/-! ## What decides a label -/

/-- A run of letters is a keyword if the list has it, and a word if not. -/
def Vocabulary.Labels (v : Vocabulary) (t : Token) : Prop :=
  IsRun CharClass.isLetter t.value.toList →
    (t.kind = .keyword ↔ t.value ∈ v.keywords) ∧ (t.kind = .word ↔ t.value ∉ v.keywords)

theorem Vocabulary.labels_of_isLexeme (hr : lx.Represents v) (h : v.IsLexeme t.value t.kind) :
    v.Labels t := by
  intro hrun
  obtain ⟨c, cs, hcs⟩ := List.exists_cons_of_ne_nil hrun.1
  have hhead : t.value.toList.head? = some c := by rw [hcs]; rfl
  have hletter : lx.classify c = .letter := Lexicon.classify_eq_letter_iff.mpr (hrun.head hhead)
  have hfirst : t.kind.firstClass = .letter := (h.classify_head hr hhead).symm.trans hletter
  cases hk : t.kind with
  | keyword =>
    have hmem : t.value ∈ v.keywords := by rw [hk] at h; exact h
    simp [hmem]
  | word =>
    have hmem : t.value ∉ v.keywords := by rw [hk] at h; exact h.2
    simp [hmem]
  | operator | int | float => simp [hk, TokenKind.firstClass] at hfirst

/-! ## Two runs -/

/-- The keywords decide which words are keywords, and nothing else: with the same operators, every
    text is accepted by both vocabularies or by none, the errors are the same, and the tokens differ
    in the labels of their words only, which each vocabulary takes from its own list. -/
theorem keywords_only_label (hv : v.validate = .ok ()) (hv' : v'.validate = .ok ())
    (hops : v'.operators = v.operators) :
    ∃ lx lx', Lexicon.compile v = .ok lx ∧ Lexicon.compile v' = .ok lx' ∧ ∀ text : String,
      ((∃ ts, lx.tokenize text = .ok ts) ↔ ∃ ts', lx'.tokenize text = .ok ts') ∧
      (∀ e, lx.tokenize text = .error e ↔ lx'.tokenize text = .error e) ∧
      ∀ ts ts', lx.tokenize text = .ok ts → lx'.tokenize text = .ok ts' →
        ts'.length = ts.length ∧ List.Forall₂ Token.SameUpToLabel ts ts' ∧
        (∀ t ∈ ts, v.Labels t) ∧ ∀ t ∈ ts', v'.Labels t := by
  obtain ⟨lx, hc, hr⟩ := Lexicon.compile_represents hv
  obtain ⟨lx', hc', hr'⟩ := Lexicon.compile_represents hv'
  have hsame : SameOperators lx lx' v v' := ⟨hr, hr', fun o => by rw [hops]⟩
  refine ⟨lx, lx', hc, hc', fun text => ?_⟩
  have htransfer := hsame.tokenize_transfer text
  cases htext : lx.tokenize text with
  | error e =>
    rw [htext] at htransfer
    simp [htransfer, Except.map]
  | ok ts =>
    rw [htext] at htransfer
    refine ⟨by simp [htransfer, Except.map], by simp [htransfer, Except.map], ?_⟩
    intro us ts' hus hts'
    obtain rfl : ts = us := Except.ok.inj hus
    obtain rfl : ts.map (Token.relabel v') = ts' := Except.ok.inj (htransfer.symm.trans hts')
    refine ⟨by simp, ?_, ?_, ?_⟩
    · rw [List.forall₂_map_right_iff, List.forall₂_same]
      intro t _
      exact t.sameUpToLabel_relabel v'
    · intro t ht
      exact Vocabulary.labels_of_isLexeme hr (isLexeme_of_mem_tokens hr htext ht)
    · intro t ht
      exact Vocabulary.labels_of_isLexeme hr' (isLexeme_of_mem_tokens hr' hts' ht)

/-- `iff` is a keyword of the second vocabulary only, and in the first one it leaves the keyword tree
    after `if`: the two runs agree on the text `if iff<2.5` in all but the label of `iff`. -/
theorem keyword_labels_of_if_and_iff :
    Vocabulary.validate ⟨["if"], ["<"]⟩ = .ok () ∧ Vocabulary.validate ⟨["iff"], ["<"]⟩ = .ok () ∧
      ∃ lx lx' ts ts', Lexicon.compile ⟨["if"], ["<"]⟩ = .ok lx ∧
        Lexicon.compile ⟨["iff"], ["<"]⟩ = .ok lx' ∧
        lx.tokenize "if iff<2.5" = .ok ts ∧ lx'.tokenize "if iff<2.5" = .ok ts' ∧
        ts.map Token.label =
          [("if", .keyword), ("iff", .word), ("<", .operator), ("2.5", .float)] ∧
        ts'.map Token.label =
          [("if", .word), ("iff", .keyword), ("<", .operator), ("2.5", .float)] ∧
        List.Forall₂ Token.SameUpToLabel ts ts' := by
  have hv : Vocabulary.validate ⟨["if"], ["<"]⟩ = .ok () := rfl
  have hv' : Vocabulary.validate ⟨["iff"], ["<"]⟩ = .ok () := rfl
  obtain ⟨lx, lx', hc, hc', h⟩ := keywords_only_label hv hv' rfl
  have hrun : (Lexicon.compile ⟨["if"], ["<"]⟩).toOption.map (·.tokenize "if iff<2.5") =
      some (.ok [⟨"if", .keyword, ⟨0, 2, 1, 1⟩⟩, ⟨"iff", .word, ⟨3, 6, 1, 4⟩⟩,
        ⟨"<", .operator, ⟨6, 7, 1, 7⟩⟩, ⟨"2.5", .float, ⟨7, 10, 1, 8⟩⟩]) := rfl
  have hrun' : (Lexicon.compile ⟨["iff"], ["<"]⟩).toOption.map (·.tokenize "if iff<2.5") =
      some (.ok [⟨"if", .word, ⟨0, 2, 1, 1⟩⟩, ⟨"iff", .keyword, ⟨3, 6, 1, 4⟩⟩,
        ⟨"<", .operator, ⟨6, 7, 1, 7⟩⟩, ⟨"2.5", .float, ⟨7, 10, 1, 8⟩⟩]) := rfl
  rw [hc] at hrun
  rw [hc'] at hrun'
  have hts := Option.some.inj hrun
  have hts' := Option.some.inj hrun'
  exact ⟨hv, hv', lx, lx', _, _, hc, hc', hts, hts', rfl, rfl, ((h _).2.2 _ _ hts hts').2.1⟩

end Lexis
