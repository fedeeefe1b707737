import Lexis.Proofs.Scan.Invariant

/-!
  Lexis.Proofs.Vocabulary.Validation

  Validation and what it is for. `WordList.Accepts` says which entries a list may hold, without the
  checks that decide it, and `Vocabulary.FirstFault` which error belongs to the first entry that it
  may not hold. Validation reports exactly that (`validate_eq_error_iff`), compilation adds no error
  of its own (`compile_eq_error_iff`), and every entry of an accepted vocabulary, scanned alone, is
  one token (`tokenize_lexeme`).
-/

namespace Lexis

/-! ## Entries and their faults -/

/-- The characters that an entry of a list may hold. -/
def WordList.Allows : WordList → Char → Prop
  | .keywords, c => CharClass.isLetter c = true
  | .operators, c => Text.isBlank c = false ∧ CharClass.isLetter c = false ∧
      CharClass.isDigit c = false ∧ c ≠ '.'

/-- An entry that a list may hold. -/
def WordList.Accepts (list : WordList) (entry : String) : Prop :=
  entry ≠ "" ∧ ∀ c ∈ entry.toList, list.Allows c

namespace VocabularyError

/-- The error shows a character of an entry, and for an operator what it is read as. -/
def Shows (e : VocabularyError) (list : WordList) (entry : String) (c : Char) : Prop :=
  match list with
  | .keywords => e = .invalidKeyword entry (.char c)
  | .operators =>
    ∃ cls, CharClass.fixed? c = some cls ∧ e = .unreachableOperator entry (.char c) cls

/-- The error is about the entry at an index: it gives the index of an empty one, and of any other
    the first character that may not stand there. -/
def Reports (e : VocabularyError) (list : WordList) (entry : String) (index : Nat) : Prop :=
  (entry = "" ∧ e = .emptyEntry list index) ∨
    ∃ pre c post, entry.toList = pre ++ c :: post ∧ (∀ d ∈ pre, list.Allows d) ∧ ¬list.Allows c ∧
      e.Shows list entry c

variable {e : VocabularyError} {list : WordList} {entry : String} {index : Nat}

theorem reports_empty_iff : e.Reports list "" index ↔ e = .emptyEntry list index := by
  constructor
  · rintro (⟨-, he⟩ | ⟨pre, c, post, hentry, -⟩)
    · exact he
    · simp at hentry
  · exact fun he => Or.inl ⟨rfl, he⟩

theorem reports_iff_of_ne (h : entry ≠ "") : e.Reports list entry index ↔
    ∃ pre c post, entry.toList = pre ++ c :: post ∧ (∀ d ∈ pre, list.Allows d) ∧ ¬list.Allows c ∧
      e.Shows list entry c :=
  ⟨fun hr => hr.resolve_left fun he => h he.1, Or.inr⟩

end VocabularyError

namespace Vocabulary

/-- The entries of a list. -/
def entries (v : Vocabulary) : WordList → List String
  | .keywords => v.keywords
  | .operators => v.operators

/-- The error is about the first entry of a list that the list may not hold. -/
def FirstFault (v : Vocabulary) (list : WordList) (e : VocabularyError) : Prop :=
  ∃ before entry after, v.entries list = before ++ entry :: after ∧
    (∀ x ∈ before, list.Accepts x) ∧ e.Reports list entry before.length

variable {v : Vocabulary} {e : VocabularyError} {entry : String} {index : Nat}

/-! ## The check of an entry -/

theorem allows_operators_iff {c : Char} :
    WordList.operators.Allows c ↔ CharClass.fixed? c = none := by
  cases hb : Text.isBlank c <;> cases hl : CharClass.isLetter c <;>
    cases hd : CharClass.isDigit c <;> simp [WordList.Allows, CharClass.fixed?, hb, hl, hd]

theorem accepts_keywords_iff : WordList.keywords.Accepts entry ↔
    entry.isEmpty = false ∧ ∀ c ∈ entry.toList, CharClass.isLetter c = true := by
  rw [WordList.Accepts, String.isEmpty_eq_false_iff]
  rfl

theorem accepts_operators_iff : WordList.operators.Accepts entry ↔
    entry.isEmpty = false ∧ ∀ c ∈ entry.toList, CharClass.fixed? c = none := by
  rw [WordList.Accepts, String.isEmpty_eq_false_iff]
  simp only [allows_operators_iff]

theorem keywordFault?_eq_some_iff :
    keywordFault? entry index = some e ↔ e.Reports .keywords entry index := by
  rw [keywordFault?]
  by_cases hempty : entry = ""
  · subst hempty
    rw [VocabularyError.reports_empty_iff, eq_comm]
    exact Option.some_inj
  · rw [if_neg (by simpa using hempty), Option.map_eq_some_iff,
      VocabularyError.reports_iff_of_ne hempty]
    constructor
    · rintro ⟨c, hfind, rfl⟩
      obtain ⟨hc, pre, post, hentry, hpre⟩ := List.find?_eq_some_iff_append.mp hfind
      refine ⟨pre, c, post, hentry, ?_, ?_, rfl⟩
      · simpa [WordList.Allows] using hpre
      · simpa [WordList.Allows] using hc
    · rintro ⟨pre, c, post, hentry, hpre, hc, rfl⟩
      refine ⟨c, List.find?_eq_some_iff_append.mpr ⟨?_, pre, post, hentry, ?_⟩, rfl⟩
      · simpa [WordList.Allows] using hc
      · simpa [WordList.Allows] using hpre

theorem operatorFault?_eq_some_iff :
    operatorFault? entry index = some e ↔ e.Reports .operators entry index := by
  rw [operatorFault?]
  by_cases hempty : entry = ""
  · subst hempty
    rw [VocabularyError.reports_empty_iff, eq_comm]
    exact Option.some_inj
  · rw [if_neg (by simpa using hempty), List.findSome?_eq_some_iff,
      VocabularyError.reports_iff_of_ne hempty]
    simp only [allows_operators_iff, Option.map_eq_some_iff, Option.map_eq_none_iff]
    constructor
    · rintro ⟨pre, c, post, hentry, ⟨cls, hcls, rfl⟩, hpre⟩
      exact ⟨pre, c, post, hentry, hpre, by simp [hcls], cls, hcls, rfl⟩
    · rintro ⟨pre, c, post, hentry, hpre, -, cls, hcls, rfl⟩
      exact ⟨pre, c, post, hentry, ⟨cls, hcls, rfl⟩, hpre⟩

/-! ## The check of a list -/

/-- The first entry that fails a check is reported, with its place in the list. -/
theorem findSome?_zipIdx_eq_some_iff {f : String → Nat → Option VocabularyError} {P : String → Prop}
    (hf : ∀ s i, f s i = none ↔ P s) (l : List String) (start : Nat) :
    ((l.zipIdx start).findSome? fun p => f p.1 p.2) = some e ↔
      ∃ before x after, l = before ++ x :: after ∧ (∀ y ∈ before, P y) ∧
        f x (start + before.length) = some e := by
  induction l generalizing start with
  | nil => simp
  | cons a l ih =>
    rw [List.zipIdx_cons, List.findSome?_cons]
    cases ha : f a start with
    | some d =>
      constructor
      · intro h
        exact ⟨[], a, l, rfl, by simp, ha.trans h⟩
      · rintro ⟨before, x, after, hsplit, hbefore, hx⟩
        -- The first entry fails, so no entry stands before the one that is reported.
        cases before with
        | nil =>
          obtain ⟨rfl, rfl⟩ := List.cons.inj hsplit
          exact ha.symm.trans hx
        | cons b before =>
          obtain ⟨rfl, -⟩ := List.cons.inj hsplit
          rw [(hf a start).mpr (hbefore a List.mem_cons_self)] at ha
          cases ha
    | none =>
      have hP : P a := (hf a start).mp ha
      show ((l.zipIdx (start + 1)).findSome? fun p => f p.1 p.2) = some e ↔ _
      rw [ih]
      constructor
      · rintro ⟨before, x, after, rfl, hbefore, hx⟩
        refine ⟨a :: before, x, after, rfl, by simpa [hP] using hbefore, ?_⟩
        rw [List.length_cons, Nat.add_comm before.length, ← Nat.add_assoc]
        exact hx
      · rintro ⟨before, x, after, hsplit, hbefore, hx⟩
        cases before with
        | nil =>
          obtain ⟨rfl, -⟩ := List.cons.inj hsplit
          rw [List.length_nil, Nat.add_zero, ha] at hx
          cases hx
        | cons b before =>
          obtain ⟨rfl, rfl⟩ := List.cons.inj hsplit
          refine ⟨before, x, after, rfl, fun y hy => hbefore y (List.mem_cons_of_mem _ hy), ?_⟩
          rw [List.length_cons, Nat.add_comm before.length, ← Nat.add_assoc] at hx
          exact hx

theorem keywords_fault_iff :
    (v.keywords.zipIdx.findSome? fun p => keywordFault? p.1 p.2) = some e ↔
      v.FirstFault .keywords e := by
  rw [findSome?_zipIdx_eq_some_iff (f := keywordFault?) fun _ _ =>
    keywordFault?_eq_none_iff.trans accepts_keywords_iff.symm]
  simp only [Nat.zero_add, keywordFault?_eq_some_iff]
  rfl

theorem operators_fault_iff :
    (v.operators.zipIdx.findSome? fun p => operatorFault? p.1 p.2) = some e ↔
      v.FirstFault .operators e := by
  rw [findSome?_zipIdx_eq_some_iff (f := operatorFault?) fun _ _ =>
    operatorFault?_eq_none_iff.trans accepts_operators_iff.symm]
  simp only [Nat.zero_add, operatorFault?_eq_some_iff]
  rfl

/-! ## Validation -/

theorem validate_eq_error_iff_fault? : v.validate = .error e ↔ v.fault? = some e := by
  unfold validate
  cases v.fault? <;> simp

/-- Validation reports the first fault, keywords before operators. -/
theorem validate_eq_error_iff :
    v.validate = .error e ↔ v.FirstFault .keywords e ∨
      (∀ k ∈ v.keywords, WordList.keywords.Accepts k) ∧ v.FirstFault .operators e := by
  have hnone := findSome?_zipIdx_eq_none_iff (f := keywordFault?)
    (fun _ _ => keywordFault?_eq_none_iff.trans accepts_keywords_iff.symm) v.keywords
  rw [validate_eq_error_iff_fault?, fault?, Option.or_eq_some_iff, keywords_fault_iff, hnone,
    operators_fault_iff]

theorem validate_eq_ok_iff_accepts :
    v.validate = .ok () ↔ (∀ k ∈ v.keywords, WordList.keywords.Accepts k) ∧
      ∀ o ∈ v.operators, WordList.operators.Accepts o := by
  rw [validate_eq_ok_iff]
  simp only [accepts_keywords_iff, accepts_operators_iff]
  exact ⟨fun h => ⟨h.keywords, h.operators⟩, fun h => ⟨h.1, h.2⟩⟩

end Vocabulary

/-! ## Compilation -/

namespace Lexicon

variable {v : Vocabulary}

theorem exists_compile_iff : (∃ lx, compile v = .ok lx) ↔ v.validate = .ok () := by
  constructor
  · rintro ⟨lx, h⟩
    cases hv : v.validate with
    | ok u => rfl
    | error e =>
      rw [compile, hv] at h
      cases h
  · intro hv
    obtain ⟨lx, hlx, -⟩ := compile_represents hv
    exact ⟨lx, hlx⟩

/-- The trees are built from lists without empty words, so all that can fail is validation. -/
theorem compile_eq_error_iff {e : VocabularyError} :
    compile v = .error e ↔ v.validate = .error e := by
  cases hv : v.validate with
  | ok u =>
    obtain ⟨lx, hlx⟩ := exists_compile_iff.mpr hv
    simp [hlx]
  | error d =>
    rw [compile, hv]
    show (Except.error d : Except VocabularyError Lexicon) = .error e ↔ _
    simp

end Lexicon

/-- A lexeme alone is one token. -/
theorem Scan.tokenize_lexeme {lx : Lexicon} {v : Vocabulary} (hr : lx.Represents v) {value : String}
    {kind : TokenKind} (h : v.IsLexeme value kind) :
    lx.tokenize value = .ok [⟨value, kind, ⟨0, value.utf8ByteSize, 1, 1⟩⟩] := by
  rw [tokenize_eq_ok_iff hr]
  refine ⟨⟨[⟨"", value, kind⟩], ""⟩, ⟨?_, ?_, ?_, .singleton _⟩, ?_, ?_⟩
  · simp
  · simp
  · simpa using h
  · simp [Layout.text, Layout.chars, Piece.chars]
  · simp [Layout.tokens, Layout.tokensFrom, Piece.token, Position.start]

/-- Validation accepts exactly the usable vocabularies. Compilation fails exactly when validation
    does and with the same error: the trees of an accepted vocabulary can always be built. Accepted
    are the vocabularies whose keywords are one or more letters and whose operators hold, besides at
    least one character, neither white space nor letters, digits or points; of any other, the error
    is about the first entry that is at fault, keywords before operators. And every entry of an
    accepted vocabulary is produced by the scan: alone, it is one token of its kind. -/
theorem validation_accepts_usable (v : Vocabulary) :
    ((∃ lx, Lexicon.compile v = .ok lx) ↔ v.validate = .ok ()) ∧
    (∀ e, Lexicon.compile v = .error e ↔ v.validate = .error e) ∧
    (v.validate = .ok () →
      (∃ t, Trie.build v.keywords = .ok t) ∧ ∃ t, Trie.build v.operators = .ok t) ∧
    (v.validate = .ok () ↔ (∀ k ∈ v.keywords, WordList.keywords.Accepts k) ∧
      ∀ o ∈ v.operators, WordList.operators.Accepts o) ∧
    (∀ e, v.validate = .error e ↔ v.FirstFault .keywords e ∨
      (∀ k ∈ v.keywords, WordList.keywords.Accepts k) ∧ v.FirstFault .operators e) ∧
    ∀ lx, Lexicon.compile v = .ok lx →
      (∀ k ∈ v.keywords, lx.tokenize k = .ok [⟨k, .keyword, ⟨0, k.utf8ByteSize, 1, 1⟩⟩]) ∧
      ∀ o ∈ v.operators, lx.tokenize o = .ok [⟨o, .operator, ⟨0, o.utf8ByteSize, 1, 1⟩⟩] := by
  refine ⟨Lexicon.exists_compile_iff, fun _ => Lexicon.compile_eq_error_iff, ?_,
    Vocabulary.validate_eq_ok_iff_accepts, fun _ => Vocabulary.validate_eq_error_iff, ?_⟩
  · intro hv
    have hu := Vocabulary.validate_eq_ok_iff.mp hv
    obtain ⟨kt, hkt, -⟩ := Trie.build_recognizes fun k hk => (hu.keywords k hk).1
    obtain ⟨ot, hot, -⟩ := Trie.build_recognizes fun o ho => (hu.operators o ho).1
    exact ⟨⟨kt, hkt⟩, ot, hot⟩
  · intro lx hlx
    obtain ⟨lx', hlx', hr⟩ := Lexicon.compile_represents (Lexicon.exists_compile_iff.mp ⟨lx, hlx⟩)
    obtain rfl : lx' = lx := Except.ok.inj (hlx'.symm.trans hlx)
    exact ⟨fun k hk => Scan.tokenize_lexeme hr hk, fun o ho => Scan.tokenize_lexeme hr ho⟩

/-- The operators `<` and `<<=` have `<<` in between, which is none; the longer one is a token all
    the same. -/
theorem validation_accepts_overlapping_operators :
    Vocabulary.validate ⟨["in", "int"], ["<", "<<="]⟩ = .ok () ∧
      ∃ lx, Lexicon.compile ⟨["in", "int"], ["<", "<<="]⟩ = .ok lx ∧
        lx.tokenize "<<=" = .ok [⟨"<<=", .operator, ⟨0, 3, 1, 1⟩⟩] := by
  have hv : Vocabulary.validate ⟨["in", "int"], ["<", "<<="]⟩ = .ok () := rfl
  obtain ⟨hok, -, -, -, -, hentries⟩ := validation_accepts_usable ⟨["in", "int"], ["<", "<<="]⟩
  obtain ⟨lx, hlx⟩ := hok.mpr hv
  exact ⟨hv, lx, hlx, (hentries lx hlx).2 "<<=" (by simp)⟩

end Lexis
