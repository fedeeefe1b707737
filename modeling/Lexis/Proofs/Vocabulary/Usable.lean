import Lexis.Lexicon
import Lexis.Proofs.Trie.Recognition

/-!
  Lexis.Proofs.Vocabulary.Usable

  What validation and compilation establish. `Vocabulary.Usable` says in words what a validated
  vocabulary is, and `Lexicon.Represents` what the scan relies on: each tree recognises its list,
  and the operator characters are those of the operators. Every later statement about tokens
  starts from `compile_represents`.
-/

namespace Lexis

/-! ## Classes of characters -/

namespace CharClass

variable {c : Char}

theorem isLetter_iff :
    isLetter c = true ↔ (97 ≤ c.toNat ∧ c.toNat ≤ 122) ∨ (65 ≤ c.toNat ∧ c.toNat ≤ 90) := by
  simp only [isLetter, Bool.or_eq_true, Bool.and_eq_true, decide_eq_true_eq, Char.le_def,
    UInt32.le_iff_toNat_le]
  rfl

theorem isDigit_iff : isDigit c = true ↔ 48 ≤ c.toNat ∧ c.toNat ≤ 57 := by
  simp only [isDigit, Bool.and_eq_true, decide_eq_true_eq, Char.le_def, UInt32.le_iff_toNat_le]
  rfl

theorem isBlank_iff : Text.isBlank c = true ↔
    ∃ r ∈ Text.blankRanges, r.1 ≤ c.toNat ∧ c.toNat ≤ r.2 :=
  Text.CodeRange.covers_iff

/-- No blank lies between `!` and `~`. -/
theorem isBlank_eq_false_of_visible (h : 33 ≤ c.toNat) (h' : c.toNat ≤ 126) :
    Text.isBlank c = false := by
  rw [← Bool.not_eq_true, isBlank_iff]
  simp only [Text.blankRanges, List.mem_cons, List.not_mem_nil, or_false, not_exists, not_and]
  -- Each of the ranges lies below `!` or above `~`.
  intro r hr
  rcases hr with rfl | rfl | rfl | rfl | rfl | rfl | rfl | rfl | rfl | rfl <;> simp only <;> omega

theorem fixed?_of_isBlank (h : Text.isBlank c = true) : fixed? c = some .whitespace := by
  simp [fixed?, h]

theorem fixed?_of_isLetter (h : isLetter c = true) : fixed? c = some .letter := by
  have hb : Text.isBlank c = false := by
    rw [isLetter_iff] at h
    exact isBlank_eq_false_of_visible (by omega) (by omega)
  simp [fixed?, hb, h]

theorem fixed?_of_isDigit (h : isDigit c = true) : fixed? c = some .digit := by
  rw [isDigit_iff] at h
  have hb : Text.isBlank c = false := isBlank_eq_false_of_visible (by omega) (by omega)
  have hl : isLetter c = false := by
    rw [← Bool.not_eq_true, isLetter_iff]
    omega
  simp [fixed?, hb, hl, isDigit_iff, h]

theorem fixed?_dot : fixed? '.' = some .dot := by decide

/-- The four fixed classes, read backwards. -/
theorem of_fixed? {cls : CharClass} (h : fixed? c = some cls) :
    (cls = .whitespace ∧ Text.isBlank c = true) ∨ (cls = .letter ∧ isLetter c = true) ∨
      (cls = .digit ∧ isDigit c = true) ∨ (cls = .dot ∧ c = '.') := by
  unfold fixed? at h
  split at h
  · exact Or.inl ⟨by simpa using h.symm, ‹_›⟩
  · split at h
    · exact Or.inr (Or.inl ⟨by simpa using h.symm, ‹_›⟩)
    · split at h
      · exact Or.inr (Or.inr (Or.inl ⟨by simpa using h.symm, ‹_›⟩))
      · split at h
        · exact Or.inr (Or.inr (Or.inr ⟨by simpa using h.symm, ‹_›⟩))
        · simp at h

end CharClass

/-! ## Validation -/

namespace Vocabulary

variable {v : Vocabulary}

/-- Keywords are runs of letters, and operators hold no character of a fixed class. -/
structure Usable (v : Vocabulary) : Prop where
  keywords : ∀ k ∈ v.keywords, k.isEmpty = false ∧ ∀ c ∈ k.toList, CharClass.isLetter c = true
  operators : ∀ o ∈ v.operators, o.isEmpty = false ∧ ∀ c ∈ o.toList, CharClass.fixed? c = none

theorem keywordFault?_eq_none_iff {k : String} {index : Nat} :
    keywordFault? k index = none ↔
      k.isEmpty = false ∧ ∀ c ∈ k.toList, CharClass.isLetter c = true := by
  unfold keywordFault?
  cases k.isEmpty <;> simp

theorem operatorFault?_eq_none_iff {o : String} {index : Nat} :
    operatorFault? o index = none ↔
      o.isEmpty = false ∧ ∀ c ∈ o.toList, CharClass.fixed? c = none := by
  unfold operatorFault?
  cases o.isEmpty <;> simp

/-- A check that no entry of a list fails, whatever the index it is reported with. -/
theorem findSome?_zipIdx_eq_none_iff {f : String → Nat → Option VocabularyError} {P : String → Prop}
    (hf : ∀ s i, f s i = none ↔ P s) (l : List String) :
    (l.zipIdx.findSome? fun p => f p.1 p.2) = none ↔ ∀ s ∈ l, P s := by
  rw [List.findSome?_eq_none_iff]
  constructor
  · intro h s hs
    obtain ⟨i, hi, rfl⟩ := List.getElem_of_mem hs
    exact (hf _ i).mp (h (l[i], i) (List.mk_mem_zipIdx_iff_getElem?.mpr (by simp)))
  · rintro h ⟨s, i⟩ hs
    exact (hf s i).mpr (h s (List.fst_mem_of_mem_zipIdx hs))

theorem validate_eq_ok_iff : v.validate = .ok () ↔ v.Usable := by
  have hfault : v.validate = .ok () ↔ v.fault? = none := by
    unfold validate
    cases v.fault? <;> simp
  rw [hfault, fault?, Option.or_eq_none_iff,
    findSome?_zipIdx_eq_none_iff (f := keywordFault?) fun _ _ => keywordFault?_eq_none_iff,
    findSome?_zipIdx_eq_none_iff (f := operatorFault?) fun _ _ => operatorFault?_eq_none_iff]
  exact ⟨fun h => ⟨h.1, h.2⟩, fun h => ⟨h.keywords, h.operators⟩⟩

end Vocabulary

/-! ## Compilation -/

namespace Lexicon

variable {lx : Lexicon} {v : Vocabulary} {c : Char}

/-- The lexicon holds the vocabulary and nothing else. -/
structure Represents (lx : Lexicon) (v : Vocabulary) : Prop where
  usable : v.Usable
  classifier : lx.classifier = Classifier.ofOperators v.operators
  keywords : lx.keywords.Recognizes v.keywords
  operators : lx.operators.Recognizes v.operators

/-- A validated vocabulary compiles. -/
theorem compile_represents (hv : v.validate = .ok ()) :
    ∃ lx, compile v = .ok lx ∧ lx.Represents v := by
  have hu : v.Usable := Vocabulary.validate_eq_ok_iff.mp hv
  obtain ⟨kt, hkt, hk⟩ := Trie.build_recognizes fun k hk => (hu.keywords k hk).1
  obtain ⟨ot, hot, ho⟩ := Trie.build_recognizes fun o ho => (hu.operators o ho).1
  -- The trees are built from lists without empty words, so neither build can fail.
  refine ⟨⟨Classifier.ofOperators v.operators, kt, ot⟩, ?_, hu, rfl, hk, ho⟩
  simp [compile, hv, hkt, hot, bind, Except.bind, Except.mapError, pure, Except.pure]

/-- The trees of a lexicon are built from the two lists. -/
theorem builds_of_compile (h : compile v = .ok lx) :
    Trie.build v.keywords = .ok lx.keywords ∧ Trie.build v.operators = .ok lx.operators := by
  cases hv : v.validate with
  | error e => simp [compile, hv, bind, Except.bind] at h
  | ok u =>
    cases hk : Trie.build v.keywords with
    | error e => simp [compile, hv, hk, bind, Except.bind, Except.mapError] at h
    | ok kt =>
      cases ho : Trie.build v.operators with
      | error e => simp [compile, hv, hk, ho, bind, Except.bind, Except.mapError] at h
      | ok ot =>
        obtain rfl : ⟨Classifier.ofOperators v.operators, kt, ot⟩ = lx := by
          simpa [compile, hv, hk, ho, bind, Except.bind, Except.mapError, pure,
            Except.pure] using h
        exact ⟨rfl, rfl⟩

/-- The fixed classes are the same in every lexicon. -/
theorem classify_eq_iff_fixed? {cls : CharClass} (ho : cls ≠ .operator) (hu : cls ≠ .unknown) :
    lx.classify c = cls ↔ CharClass.fixed? c = some cls := by
  unfold classify Classifier.classify
  cases CharClass.fixed? c with
  | some k => simp
  | none =>
    simp only [reduceCtorEq, iff_false]
    split
    · exact ho.symm
    · exact hu.symm

theorem classify_eq_whitespace_iff : lx.classify c = .whitespace ↔ Text.isBlank c = true := by
  rw [classify_eq_iff_fixed? (by simp) (by simp)]
  exact ⟨fun h => by simpa using CharClass.of_fixed? h, CharClass.fixed?_of_isBlank⟩

theorem classify_eq_letter_iff : lx.classify c = .letter ↔ CharClass.isLetter c = true := by
  rw [classify_eq_iff_fixed? (by simp) (by simp)]
  exact ⟨fun h => by simpa using CharClass.of_fixed? h, CharClass.fixed?_of_isLetter⟩

theorem classify_eq_digit_iff : lx.classify c = .digit ↔ CharClass.isDigit c = true := by
  rw [classify_eq_iff_fixed? (by simp) (by simp)]
  exact ⟨fun h => by simpa using CharClass.of_fixed? h, CharClass.fixed?_of_isDigit⟩

theorem classify_eq_dot_iff : lx.classify c = .dot ↔ c = '.' := by
  rw [classify_eq_iff_fixed? (by simp) (by simp)]
  refine ⟨fun h => by simpa using CharClass.of_fixed? h, ?_⟩
  rintro rfl
  exact CharClass.fixed?_dot

/-- The operator characters are the characters of the operators. -/
theorem Represents.classify_eq_operator_iff (h : lx.Represents v) :
    lx.classify c = .operator ↔ ∃ o ∈ v.operators, c ∈ o.toList := by
  have hmem : lx.classifier.operatorChars.contains c = true ↔ ∃ o ∈ v.operators, c ∈ o.toList := by
    rw [h.classifier]
    simp [Classifier.ofOperators, List.mem_eraseDups]
  unfold classify Classifier.classify
  cases hf : CharClass.fixed? c with
  | none =>
    simp only [← hmem]
    split <;> simp_all
  | some k =>
    have hk : k ≠ .operator := by
      rcases CharClass.of_fixed? hf with h | h | h | h <;> simp [h.1]
    -- An operator holds no character of a fixed class.
    have hno : ¬∃ o ∈ v.operators, c ∈ o.toList := by
      rintro ⟨o, ho, hc⟩
      simp [(h.usable.operators o ho).2 c hc] at hf
    simp [hk, hno]

end Lexicon

end Lexis
