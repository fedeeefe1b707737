import Lexis.Scan
import Lexis.Proofs.Vocabulary.Usable
import Mathlib.Data.List.Basic

/-!
  Lexis.Proofs.Scan.Lexeme

  The lexemes of a vocabulary, and the part of the scan that stays inside one lexeme. `IsLexeme`
  says what a lexeme of each kind is; `Within` says what a mode of the machine knows of the
  characters it has read since the lexeme began. The moves inside a lexeme are `Mode.begin?` and
  `Mode.next?`, and `Mode.accept?` is the kind of a lexeme that ends in a mode.

  The two sides agree: a lexeme can be read to its end (`next?_isSome_of_isLexeme`), it is then
  accepted with its kind (`accept?_of_isLexeme`), whatever is accepted is a lexeme
  (`isLexeme_of_accept?`), and whatever has been begun can be completed (`exists_completion`).
-/

namespace Lexis

/-- One or more characters, all of one sort. -/
def IsRun (sort : Char → Bool) (cs : List Char) : Prop := cs ≠ [] ∧ ∀ c ∈ cs, sort c = true

namespace IsRun

variable {sort : Char → Bool} {c : Char} {cs : List Char}

theorem singleton (h : sort c = true) : IsRun sort [c] :=
  ⟨by simp, by simpa using h⟩

theorem concat (h : IsRun sort cs) (hc : sort c = true) : IsRun sort (cs ++ [c]) := by
  refine ⟨by simp, fun d hd => ?_⟩
  rcases List.mem_append.mp hd with hd | hd
  · exact h.2 d hd
  · obtain rfl : d = c := by simpa using hd
    exact hc

theorem head (h : IsRun sort cs) (hc : cs.head? = some c) : sort c = true :=
  h.2 c (List.mem_of_head? hc)

theorem head?_append (h : IsRun sort cs) (rest : List Char) : (cs ++ rest).head? = cs.head? := by
  obtain ⟨d, ds, rfl⟩ := List.exists_cons_of_ne_nil h.1
  rfl

theorem dot_notMem (h : IsRun CharClass.isDigit cs) : '.' ∉ cs :=
  fun hmem => absurd (h.2 '.' hmem) (by decide)

end IsRun

/-- A number has one way to be cut at its decimal point. -/
theorem split_at_point {whole fraction pre post : List Char} (hw : IsRun CharClass.isDigit whole)
    (hf : IsRun CharClass.isDigit fraction) (h : pre ++ '.' :: post = whole ++ '.' :: fraction) :
    pre = whole ∧ post = fraction := by
  obtain ⟨h₁, -, h₂⟩ := (List.append_cons_inj_of_notMem hw.dot_notMem hf.dot_notMem).mp h.symm
  exact ⟨h₁.symm, h₂.symm⟩

/-- A text is a lexeme of a kind. -/
def Vocabulary.IsLexeme (v : Vocabulary) (s : String) : TokenKind → Prop
  | .keyword => s ∈ v.keywords
  | .word => IsRun CharClass.isLetter s.toList ∧ s ∉ v.keywords
  | .int => IsRun CharClass.isDigit s.toList
  | .float => ∃ whole fraction, IsRun CharClass.isDigit whole ∧ IsRun CharClass.isDigit fraction ∧
      s.toList = whole ++ '.' :: fraction
  | .operator => s ∈ v.operators

/-- The class of the first character of a lexeme. -/
def TokenKind.firstClass : TokenKind → CharClass
  | .keyword | .word => .letter
  | .int | .float => .digit
  | .operator => .operator

theorem TokenKind.firstClass_eq_operator_iff {kind : TokenKind} :
    kind.firstClass = .operator ↔ kind = .operator := by
  cases kind <;> simp [firstClass]

namespace Vocabulary.IsLexeme

variable {lx : Lexicon} {v : Vocabulary} {s : String} {kind : TokenKind} {d : Char}

/-- No lexeme is empty. -/
theorem toList_ne_nil (hr : lx.Represents v) (h : v.IsLexeme s kind) : s.toList ≠ [] := by
  cases kind with
  | keyword => simpa using (hr.usable.keywords s h).1
  | word => exact h.1.1
  | operator => simpa using (hr.usable.operators s h).1
  | int => exact h.1
  | float =>
    obtain ⟨whole, fraction, -, -, hs⟩ := h
    simp [hs]

/-- The kind tells the class of the first character of a lexeme. -/
theorem classify_head (hr : lx.Represents v) (h : v.IsLexeme s kind)
    (hd : s.toList.head? = some d) : lx.classify d = kind.firstClass := by
  have hmem : d ∈ s.toList := List.mem_of_head? hd
  cases kind with
  | keyword => exact Lexicon.classify_eq_letter_iff.mpr ((hr.usable.keywords s h).2 d hmem)
  | word => exact Lexicon.classify_eq_letter_iff.mpr (h.1.2 d hmem)
  | operator => exact hr.classify_eq_operator_iff.mpr ⟨s, h, hmem⟩
  | int => exact Lexicon.classify_eq_digit_iff.mpr (h.2 d hmem)
  | float =>
    obtain ⟨whole, fraction, hw, -, hs⟩ := h
    rw [hs, hw.head?_append] at hd
    exact Lexicon.classify_eq_digit_iff.mpr (hw.head hd)

/-- No lexeme holds white space. -/
theorem isBlank_eq_false (hr : lx.Represents v) (h : v.IsLexeme s kind) (hd : d ∈ s.toList) :
    Text.isBlank d = false := by
  -- A blank has the class of white space, and no character of a lexeme has.
  refine Bool.eq_false_iff.mpr fun hb => ?_
  have hf := CharClass.fixed?_of_isBlank hb
  cases kind with
  | keyword => simp [CharClass.fixed?_of_isLetter ((hr.usable.keywords s h).2 d hd)] at hf
  | word => simp [CharClass.fixed?_of_isLetter (h.1.2 d hd)] at hf
  | operator => simp [(hr.usable.operators s h).2 d hd] at hf
  | int => simp [CharClass.fixed?_of_isDigit (h.2 d hd)] at hf
  | float =>
    obtain ⟨whole, fraction, hw, hfr, hs⟩ := h
    rw [hs, List.mem_append, List.mem_cons] at hd
    rcases hd with hd | rfl | hd
    · simp [CharClass.fixed?_of_isDigit (hw.2 d hd)] at hf
    · simp [CharClass.fixed?_dot] at hf
    · simp [CharClass.fixed?_of_isDigit (hfr.2 d hd)] at hf

end Vocabulary.IsLexeme

namespace Scan

/-! ## Moves inside a lexeme -/

namespace Mode

/-- The class of the first character of the lexeme at hand. -/
def firstClass : Mode → CharClass
  | .gap => .whitespace
  | .word _ => .letter
  | .number | .fraction => .digit
  | .operator _ => .operator

/-- The mode after the first character of a lexeme. -/
def begin? (lx : Lexicon) (c : Char) : Option Mode :=
  match lx.classify c with
  | .letter => some (.word (lx.keywords.start? c))
  | .digit => some .number
  | .operator => (lx.operators.start? c).map .operator
  | .whitespace | .dot | .unknown => none

/-- The mode and number kind after one more character of the lexeme at hand. -/
def next? (lx : Lexicon) (m : Mode) (k : NumberKind) (c : Char) : Option (Mode × NumberKind) :=
  match m with
  | .gap => none
  | .word keyword =>
    if lx.classify c = .letter then
      some (.word (keyword.bind fun n => lx.keywords.step? n c), k)
    else none
  | .number =>
    if lx.classify c = .digit then some (.number, k)
    else if lx.classify c = .dot ∧ k = .int then some (.fraction, .float)
    else none
  | .fraction =>
    if lx.classify c = .digit ∧ k = .float then some (.number, .float) else none
  | .operator node =>
    if lx.classify c = .operator then
      (lx.operators.step? node c).map fun n => (.operator n, k)
    else none

/-- The kind of a lexeme that ends in a mode. -/
def accept? (lx : Lexicon) (m : Mode) (k : NumberKind) : Option TokenKind :=
  match m with
  | .gap | .fraction => none
  | .word keyword => some (if keyword.any lx.keywords.isTerminal then .keyword else .word)
  | .number => some k.tokenKind
  | .operator node => if lx.operators.isTerminal node then some .operator else none

end Mode

/-- What a mode knows of the characters since the lexeme began. -/
inductive Within (lx : Lexicon) : Mode → NumberKind → List Char → Prop where
  | word {cs : List Char} : IsRun CharClass.isLetter cs →
      Within lx (.word (lx.keywords.walkFrom? Trie.root cs)) .int cs
  | int {cs : List Char} : IsRun CharClass.isDigit cs → Within lx .number .int cs
  | point {whole : List Char} : IsRun CharClass.isDigit whole →
      Within lx .fraction .float (whole ++ ['.'])
  | float {whole fraction : List Char} : IsRun CharClass.isDigit whole →
      IsRun CharClass.isDigit fraction → Within lx .number .float (whole ++ '.' :: fraction)
  | operator {cs : List Char} {node : NodeId} : cs ≠ [] →
      lx.operators.walkFrom? Trie.root cs = some node → Within lx (.operator node) .int cs

section

variable {lx : Lexicon} {v : Vocabulary} {m m' : Mode} {k k' : NumberKind} {kind : TokenKind}
  {c : Char} {cs rest : List Char}

/-! ## The machine keeps what it knows -/

theorem Within.ne_nil (h : Within lx m k cs) : cs ≠ [] := by
  cases h with
  | word h => exact h.1
  | int h => exact h.1
  | point h => simp
  | float h h' => simp
  | operator h h' => exact h

theorem Within.mode_ne_gap (h : Within lx m k cs) : m ≠ .gap := by
  cases h <;> simp

theorem within_of_begin? (h : Mode.begin? lx c = some m) : Within lx m .int [c] := by
  unfold Mode.begin? at h
  split at h
  · rename_i hc
    obtain rfl : Mode.word (lx.keywords.start? c) = m := by simpa using h
    -- A walk that finds no node is kept too: the word is then no keyword, whatever follows.
    have hw : lx.keywords.start? c = lx.keywords.walkFrom? Trie.root [c] := by
      simp [Trie.start?, Trie.walkFrom?]
    rw [hw]
    exact .word (.singleton (Lexicon.classify_eq_letter_iff.mp hc))
  · rename_i hc
    obtain rfl : Mode.number = m := by simpa using h
    exact .int (.singleton (Lexicon.classify_eq_digit_iff.mp hc))
  · obtain ⟨n, hn, rfl⟩ := Option.map_eq_some_iff.mp h
    exact .operator (by simp) (by simpa [Trie.start?, Trie.walkFrom?] using hn)
  all_goals simp at h

theorem Within.next? (hw : Within lx m k cs) (h : m.next? lx k c = some (m', k')) :
    Within lx m' k' (cs ++ [c]) := by
  cases hw with
  | word hrun =>
    simp only [Mode.next?, Option.ite_none_right_eq_some, Option.some.injEq, Prod.mk.injEq] at h
    obtain ⟨hc, rfl, rfl⟩ := h
    rw [← Trie.walkFrom?_concat]
    exact .word (hrun.concat (Lexicon.classify_eq_letter_iff.mp hc))
  | int hrun =>
    simp only [Mode.next?] at h
    split at h
    · rename_i hc
      obtain ⟨rfl, rfl⟩ : Mode.number = m' ∧ NumberKind.int = k' := by simpa using h
      exact .int (hrun.concat (Lexicon.classify_eq_digit_iff.mp hc))
    · simp only [and_true, Option.ite_none_right_eq_some, Option.some.injEq, Prod.mk.injEq] at h
      obtain ⟨hc, rfl, rfl⟩ := h
      rw [Lexicon.classify_eq_dot_iff.mp hc]
      exact .point hrun
  | point hrun =>
    simp only [Mode.next?, Option.ite_none_right_eq_some, Option.some.injEq, Prod.mk.injEq] at h
    obtain ⟨⟨hc, -⟩, rfl, rfl⟩ := h
    rw [List.append_assoc]
    exact .float hrun (.singleton (Lexicon.classify_eq_digit_iff.mp hc))
  | float hrun hrun' =>
    simp only [Mode.next?] at h
    split at h
    · rename_i hc
      obtain ⟨rfl, rfl⟩ : Mode.number = m' ∧ NumberKind.float = k' := by simpa using h
      rw [List.append_assoc, List.cons_append]
      exact .float hrun (hrun'.concat (Lexicon.classify_eq_digit_iff.mp hc))
    · simp at h
  | operator hne hwalk =>
    simp only [Mode.next?, Option.ite_none_right_eq_some, Option.map_eq_some_iff,
      Prod.mk.injEq] at h
    obtain ⟨-, n, hn, rfl, rfl⟩ := h
    exact .operator (by simp) (by rw [Trie.walkFrom?_concat, hwalk]; exact hn)

/-! ## First characters -/

theorem begin?_firstClass (h : Mode.begin? lx c = some m) : lx.classify c = m.firstClass := by
  unfold Mode.begin? at h
  split at h
  · obtain rfl : Mode.word (lx.keywords.start? c) = m := by simpa using h
    assumption
  · obtain rfl : Mode.number = m := by simpa using h
    assumption
  · obtain ⟨n, -, rfl⟩ := Option.map_eq_some_iff.mp h
    assumption
  all_goals simp at h

/-- Going on with a lexeme does not change how it began. -/
theorem next?_firstClass (h : m.next? lx k c = some (m', k')) : m'.firstClass = m.firstClass := by
  cases m with
  | gap => simp [Mode.next?] at h
  | word keyword =>
    simp only [Mode.next?, Option.ite_none_right_eq_some, Option.some.injEq, Prod.mk.injEq] at h
    rw [← h.2.1]
    rfl
  | number =>
    simp only [Mode.next?] at h
    split at h
    · simp only [Option.some.injEq, Prod.mk.injEq] at h
      rw [← h.1]
    · simp only [Option.ite_none_right_eq_some, Option.some.injEq, Prod.mk.injEq] at h
      rw [← h.2.1]
      rfl
  | fraction =>
    simp only [Mode.next?, Option.ite_none_right_eq_some, Option.some.injEq, Prod.mk.injEq] at h
    rw [← h.2.1]
    rfl
  | operator node =>
    simp only [Mode.next?, Option.ite_none_right_eq_some, Option.map_eq_some_iff,
      Prod.mk.injEq] at h
    obtain ⟨-, n, -, rfl, -⟩ := h
    rfl

/-- The kind of a lexeme that ends in a mode fits how the lexeme began. -/
theorem accept?_firstClass (h : m.accept? lx k = some kind) : kind.firstClass = m.firstClass := by
  cases m with
  | gap => simp [Mode.accept?] at h
  | fraction => simp [Mode.accept?] at h
  | word keyword =>
    simp only [Mode.accept?, Option.some.injEq] at h
    rw [← h]
    split <;> rfl
  | number =>
    simp only [Mode.accept?, Option.some.injEq] at h
    rw [← h]
    cases k <;> rfl
  | operator node =>
    simp only [Mode.accept?, Option.ite_none_right_eq_some, Option.some.injEq] at h
    rw [← h.2]
    rfl

/-- The mode tells the class of the first character of the lexeme at hand. -/
theorem Within.classify_head (hr : lx.Represents v) (h : Within lx m k cs) {d : Char}
    (hd : cs.head? = some d) : lx.classify d = m.firstClass := by
  cases h with
  | word hrun => exact Lexicon.classify_eq_letter_iff.mpr (hrun.head hd)
  | int hrun => exact Lexicon.classify_eq_digit_iff.mpr (hrun.head hd)
  | point hrun =>
    rw [hrun.head?_append] at hd
    exact Lexicon.classify_eq_digit_iff.mpr (hrun.head hd)
  | float hrun hrun' =>
    rw [hrun.head?_append] at hd
    exact Lexicon.classify_eq_digit_iff.mpr (hrun.head hd)
  | operator hne hwalk =>
    -- What leads to a node of the tree begins some operator.
    have hreach : cs = [] ∨ ∃ o ∈ v.operators, cs <+: o.toList :=
      (hr.operators.reaches cs).mp (by simp [hwalk])
    obtain ⟨o, ho, hpre⟩ := hreach.resolve_left hne
    exact hr.classify_eq_operator_iff.mpr ⟨o, ho, hpre.subset (List.mem_of_head? hd)⟩

/-- A lexeme and the part of it that has been read begin alike. -/
theorem Within.firstClass_eq (hr : lx.Represents v) (hw : Within lx m k cs) {s : String}
    (h : v.IsLexeme s kind) (hs : s.toList = cs ++ rest) : kind.firstClass = m.firstClass := by
  obtain ⟨d, ds, rfl⟩ := List.exists_cons_of_ne_nil hw.ne_nil
  rw [← h.classify_head hr (d := d) (by simp [hs])]
  exact hw.classify_head hr (d := d) rfl

/-! ## Lexemes are read to their end -/

/-- The first character of a lexeme begins it. -/
theorem begin?_isSome_of_isLexeme (hr : lx.Represents v) {s : String} (h : v.IsLexeme s kind)
    (hs : s.toList = c :: rest) : (Mode.begin? lx c).isSome := by
  have hcls : lx.classify c = kind.firstClass := h.classify_head hr (by simp [hs])
  unfold Mode.begin?
  rw [hcls]
  cases kind with
  | operator =>
    have hroot : lx.operators.walkFrom? Trie.root [] = some Trie.root := rfl
    have hstep := (hr.operators.step?_isSome_iff hroot c).mpr ⟨s, h, by simp [hs]⟩
    simpa [TokenKind.firstClass, Trie.start?] using hstep
  | _ => simp [TokenKind.firstClass]

/-- Every further character of a lexeme goes on with it. -/
theorem next?_isSome_of_isLexeme (hr : lx.Represents v) (hw : Within lx m k cs) {s : String}
    (h : v.IsLexeme s kind) (hs : s.toList = cs ++ c :: rest) : (m.next? lx k c).isSome := by
  -- The first character decides which kinds are possible in each mode.
  have hcls := hw.firstClass_eq hr h hs
  have hmem : c ∈ s.toList := by simp [hs]
  cases hw with
  | word hrun =>
    have hc : lx.classify c = .letter := by
      cases kind with
      | keyword => exact Lexicon.classify_eq_letter_iff.mpr ((hr.usable.keywords s h).2 c hmem)
      | word => exact Lexicon.classify_eq_letter_iff.mpr (h.1.2 c hmem)
      | operator | int | float => simp [TokenKind.firstClass, Mode.firstClass] at hcls
    simp [Mode.next?, hc]
  | int hrun =>
    cases kind with
    | int =>
      have hc : lx.classify c = .digit := Lexicon.classify_eq_digit_iff.mpr (h.2 c hmem)
      simp [Mode.next?, hc]
    | float =>
      obtain ⟨whole, fraction, hwhole, hfrac, hsf⟩ := h
      have hc : lx.classify c = .digit ∨ lx.classify c = .dot := by
        rw [hsf, List.mem_append, List.mem_cons] at hmem
        rcases hmem with hmem | rfl | hmem
        · exact Or.inl (Lexicon.classify_eq_digit_iff.mpr (hwhole.2 c hmem))
        · exact Or.inr (Lexicon.classify_eq_dot_iff.mpr rfl)
        · exact Or.inl (Lexicon.classify_eq_digit_iff.mpr (hfrac.2 c hmem))
      rcases hc with hc | hc <;> simp [Mode.next?, hc]
    | keyword | word | operator => simp [TokenKind.firstClass, Mode.firstClass] at hcls
  | @point whole hrun =>
    cases kind with
    | int =>
      exact absurd (h.2 '.' (by simp [hs])) (by decide)
    | float =>
      obtain ⟨whole', fraction, hwhole, hfrac, hsf⟩ := h
      -- The point that was read is the decimal point of the lexeme: it has only one.
      have hcut : whole = whole' ∧ c :: rest = fraction :=
        split_at_point hwhole hfrac (by simpa [hs] using hsf)
      have hc : lx.classify c = .digit :=
        Lexicon.classify_eq_digit_iff.mpr (hfrac.2 c (by simp [← hcut.2]))
      simp [Mode.next?, hc]
    | keyword | word | operator => simp [TokenKind.firstClass, Mode.firstClass] at hcls
  | @float whole frac hrun hrun' =>
    cases kind with
    | int =>
      exact absurd (h.2 '.' (by simp [hs])) (by decide)
    | float =>
      obtain ⟨whole', fraction, hwhole, hfrac, hsf⟩ := h
      have hcut : whole = whole' ∧ frac ++ c :: rest = fraction :=
        split_at_point hwhole hfrac (by simpa [hs] using hsf)
      have hc : lx.classify c = .digit :=
        Lexicon.classify_eq_digit_iff.mpr (hfrac.2 c (by simp [← hcut.2]))
      simp [Mode.next?, hc]
    | keyword | word | operator => simp [TokenKind.firstClass, Mode.firstClass] at hcls
  | operator hne hwalk =>
    cases kind with
    | operator =>
      have hc : lx.classify c = .operator := hr.classify_eq_operator_iff.mpr ⟨s, h, hmem⟩
      have hstep := (hr.operators.step?_isSome_iff hwalk c).mpr ⟨s, h, by simp [hs]⟩
      simpa [Mode.next?, hc] using hstep
    | keyword | word | int | float => simp [TokenKind.firstClass, Mode.firstClass] at hcls

/-- Inside an operator, a character goes on with it exactly when some operator does. -/
theorem next?_eq_none_iff_of_operator (hr : lx.Represents v) (hw : Within lx m k cs)
    (hop : m.firstClass = .operator) :
    m.next? lx k c = none ↔ ∀ o ∈ v.operators, ¬cs ++ [c] <+: o.toList := by
  cases hw with
  | word | int | point | float => simp [Mode.firstClass] at hop
  | @operator _ node hne hwalk =>
    have hstep := hr.operators.step?_isSome_iff hwalk c
    constructor
    · intro hn o ho hpre
      have hc : lx.classify c = .operator :=
        hr.classify_eq_operator_iff.mpr ⟨o, ho, hpre.subset (by simp)⟩
      have hsome := hstep.mpr ⟨o, ho, hpre⟩
      simp_all [Mode.next?]
    · intro hno
      have hnone : lx.operators.step? node c = none := by
        rw [← Option.not_isSome_iff_eq_none, hstep]
        exact fun ⟨o, ho, hpre⟩ => hno o ho hpre
      simp [Mode.next?, hnone]

/-! ## The end of a lexeme -/

/-- What is accepted is a lexeme of the accepted kind. -/
theorem isLexeme_of_accept? (hr : lx.Represents v) {s : String} (hw : Within lx m k s.toList)
    (h : m.accept? lx k = some kind) : v.IsLexeme s kind := by
  generalize hs : s.toList = cs at hw
  cases hw with
  | word hrun =>
    -- The node of the whole word is terminal exactly for a keyword.
    have hkw := hr.keywords.any_isTerminal_iff s
    rw [hs] at hkw
    simp only [Mode.accept?, Option.some.injEq] at h
    split at h
    · subst h
      exact hkw.mp ‹_›
    · subst h
      refine ⟨by rwa [hs], fun hmem => ?_⟩
      exact absurd (hkw.mpr hmem) ‹_›
  | int hrun =>
    obtain rfl : TokenKind.int = kind := by simpa [Mode.accept?, NumberKind.tokenKind] using h
    rwa [← hs] at hrun
  | point hrun => simp [Mode.accept?] at h
  | float hrun hrun' =>
    obtain rfl : TokenKind.float = kind := by simpa [Mode.accept?, NumberKind.tokenKind] using h
    exact ⟨_, _, hrun, hrun', hs⟩
  | operator hne hwalk =>
    simp only [Mode.accept?, Option.ite_none_right_eq_some, Option.some.injEq] at h
    obtain ⟨hterm, rfl⟩ := h
    have hmem := (hr.operators.isTerminal_iff hwalk).mp hterm
    rwa [← hs, String.ofList_toList] at hmem

/-- A lexeme that has been read is accepted with its kind. -/
theorem accept?_of_isLexeme (hr : lx.Represents v) {s : String} (hw : Within lx m k s.toList)
    (h : v.IsLexeme s kind) : m.accept? lx k = some kind := by
  have hcls : kind.firstClass = m.firstClass := hw.firstClass_eq hr h (List.append_nil _).symm
  generalize hs : s.toList = cs at hw
  cases hw with
  | word hrun =>
    have hkw := hr.keywords.any_isTerminal_iff s
    rw [hs] at hkw
    cases kind with
    | keyword => simp [Mode.accept?, hkw.mpr h]
    | word => simp [Mode.accept?, mt hkw.mp h.2]
    | operator | int | float => simp [TokenKind.firstClass, Mode.firstClass] at hcls
  | int hrun =>
    cases kind with
    | int => rfl
    | float =>
      obtain ⟨whole, fraction, -, -, hsf⟩ := h
      exact absurd (by simp [← hs, hsf]) hrun.dot_notMem
    | keyword | word | operator => simp [TokenKind.firstClass, Mode.firstClass] at hcls
  | @point whole hrun =>
    cases kind with
    | int => exact absurd (h.2 '.' (by simp [hs])) (by decide)
    | float =>
      obtain ⟨whole', fraction, hwhole, hfrac, hsf⟩ := h
      have hcut : whole = whole' ∧ [] = fraction :=
        split_at_point hwhole hfrac (by simpa [hs] using hsf)
      exact absurd hcut.2.symm hfrac.1
    | keyword | word | operator => simp [TokenKind.firstClass, Mode.firstClass] at hcls
  | float hrun hrun' =>
    cases kind with
    | int => exact absurd (h.2 '.' (by simp [hs])) (by decide)
    | float => rfl
    | keyword | word | operator => simp [TokenKind.firstClass, Mode.firstClass] at hcls
  | operator hne hwalk =>
    cases kind with
    | operator =>
      have hterm := (hr.operators.isTerminal_iff hwalk).mpr (by rwa [← hs, String.ofList_toList])
      simp [Mode.accept?, hterm]
    | keyword | word | int | float => simp [TokenKind.firstClass, Mode.firstClass] at hcls

/-- What has been begun can be completed: a word and a number are complete, a decimal point wants
    a digit, and an operator the rest of some operator of the vocabulary. -/
theorem exists_completion (hr : lx.Represents v) (hw : Within lx m k cs) :
    ∃ es kind, v.IsLexeme (String.ofList (cs ++ es)) kind := by
  cases hw with
  | word hrun =>
    refine ⟨[], ?_⟩
    by_cases hmem : String.ofList cs ∈ v.keywords
    · exact ⟨.keyword, by simpa [Vocabulary.IsLexeme] using hmem⟩
    · exact ⟨.word, by simpa [Vocabulary.IsLexeme] using ⟨hrun, hmem⟩⟩
  | int hrun => exact ⟨[], .int, by simpa [Vocabulary.IsLexeme] using hrun⟩
  | @point whole hrun =>
    exact ⟨['0'], .float, whole, ['0'], hrun, .singleton (by decide), by simp⟩
  | float hrun hrun' => exact ⟨[], .float, _, _, hrun, hrun', by simp⟩
  | operator hne hwalk =>
    obtain ⟨es, n, hes, hterm⟩ := hr.operators.exists_completion hwalk hne
    exact ⟨es, .operator, (hr.operators.isTerminal_iff hes).mp hterm⟩

end

end Scan

end Lexis
