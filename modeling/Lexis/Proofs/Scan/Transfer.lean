import Lexis.Proofs.Scan.Invariant

/-!
  Lexis.Proofs.Scan.Transfer

  One text read by two lexicons whose vocabularies have the same operators. The trees may number
  their nodes differently and the keywords may differ, so the two machines are never in the same
  state; but a state is determined by the lexeme at hand, and `Mode.carry` finds the counterpart of
  a mode by walking that lexeme through the other trees. Everything a mode is asked for commutes
  with `carry`: how a lexeme begins, goes on and ends. So does every character that is read.

  Main statement: `tokenize_transfer`. The two results differ in nothing but which words are
  keywords.
-/

namespace Lexis

/-! ## Keywords of another vocabulary -/

/-- The kind of a lexeme under another list of keywords. -/
def TokenKind.relabel (v : Vocabulary) (s : String) : TokenKind → TokenKind
  | .keyword | .word => if s ∈ v.keywords then .keyword else .word
  | kind => kind

/-- A token under another list of keywords. -/
def Token.relabel (v : Vocabulary) (t : Token) : Token :=
  { t with kind := t.kind.relabel v t.value }

namespace Scan

/-- Two lexicons whose vocabularies have the same operators. -/
structure SameOperators (lx lx' : Lexicon) (v v' : Vocabulary) : Prop where
  left : lx.Represents v
  right : lx'.Represents v'
  operators : ∀ o, o ∈ v'.operators ↔ o ∈ v.operators

variable {lx lx' : Lexicon} {v v' : Vocabulary} {m : Mode} {k : NumberKind} {kind : TokenKind}
  {p : Progress} {c : Char} {pre cs : List Char} {n n' : NodeId}

namespace SameOperators

theorem classify_eq (h : SameOperators lx lx' v v') (c : Char) :
    lx'.classify c = lx.classify c := by
  have hop : lx'.classify c = .operator ↔ lx.classify c = .operator := by
    simp only [h.left.classify_eq_operator_iff, h.right.classify_eq_operator_iff, h.operators]
  unfold Lexicon.classify Classifier.classify at hop ⊢
  cases hf : CharClass.fixed? c with
  | some cls => rfl
  | none =>
    -- Outside the fixed classes a character is an operator character or unknown.
    simp only [hf] at hop ⊢
    split at hop <;> split at hop <;> simp_all

/-- The two operator trees lead on along the same texts. -/
theorem walk_isSome (h : SameOperators lx lx' v v') (cs : List Char) :
    (lx'.operators.walkFrom? Trie.root cs).isSome =
      (lx.operators.walkFrom? Trie.root cs).isSome := by
  rw [Bool.eq_iff_iff, h.left.operators.reaches, h.right.operators.reaches]
  simp only [h.operators]

theorem exists_walk (h : SameOperators lx lx' v v')
    (hn : lx.operators.walkFrom? Trie.root cs = some n) :
    ∃ n', lx'.operators.walkFrom? Trie.root cs = some n' :=
  Option.isSome_iff_exists.mp ((h.walk_isSome cs).trans (by simp [hn]))

theorem isTerminal_eq (h : SameOperators lx lx' v v')
    (hn : lx.operators.walkFrom? Trie.root cs = some n)
    (hn' : lx'.operators.walkFrom? Trie.root cs = some n') :
    lx'.operators.isTerminal n' = lx.operators.isTerminal n := by
  rw [Bool.eq_iff_iff, h.left.operators.isTerminal_iff hn, h.right.operators.isTerminal_iff hn',
    h.operators]

end SameOperators

/-! ## Modes -/

/-- The counterpart of a mode in another lexicon, where the lexeme at hand is `cs`. -/
def Mode.carry (lx : Lexicon) (cs : List Char) : Mode → Mode
  | .word _ => .word (lx.keywords.walkFrom? Trie.root cs)
  | .operator node => .operator ((lx.operators.walkFrom? Trie.root cs).getD node)
  | m => m

@[simp] theorem Mode.firstClass_carry : (m.carry lx cs).firstClass = m.firstClass := by
  cases m <;> rfl

@[simp] theorem Mode.refusal_carry (cls : CharClass) :
    (m.carry lx cs).refusal cls = m.refusal cls := by
  cases m <;> cases cls <;> rfl

theorem Mode.yields_carry {cls : CharClass} : (m.carry lx cs).Yields cls ↔ m.Yields cls := by
  simp [Mode.Yields]

namespace SameOperators

/-- The counterpart knows of the lexeme what the mode knows. -/
theorem within_carry (h : SameOperators lx lx' v v') (hw : Within lx m k cs) :
    Within lx' (m.carry lx' cs) k cs := by
  cases hw with
  | word hrun => exact .word hrun
  | int hrun => exact .int hrun
  | point hrun => exact .point hrun
  | float hrun hrun' => exact .float hrun hrun'
  | operator hne hwalk =>
    obtain ⟨n', hn'⟩ := h.exists_walk hwalk
    simp only [Mode.carry, hn', Option.getD_some]
    exact .operator hne hn'

theorem begin?_carry (h : SameOperators lx lx' v v') (c : Char) :
    Mode.begin? lx' c = (Mode.begin? lx c).map (Mode.carry lx' [c]) := by
  unfold Mode.begin?
  rw [h.classify_eq]
  cases lx.classify c with
  | letter => simp [Mode.carry, Trie.start?, Trie.walkFrom?]
  | operator =>
    have hwalk := h.walk_isSome [c]
    simp only [Trie.walkFrom?, Option.bind_fun_some] at hwalk
    cases hn : lx.operators.step? Trie.root c with
    | none =>
      have hn' : lx'.operators.step? Trie.root c = none := by simpa [hn] using hwalk
      simp [Trie.start?, hn, hn']
    | some n =>
      obtain ⟨n', hn'⟩ := Option.isSome_iff_exists.mp (hwalk.trans (by simp [hn]))
      simp [Trie.start?, hn, hn', Mode.carry, Trie.walkFrom?]
  | whitespace | digit | dot | unknown => rfl

theorem next?_carry (h : SameOperators lx lx' v v') (hw : Within lx m k cs) (c : Char) :
    (m.carry lx' cs).next? lx' k c =
      (m.next? lx k c).map fun q => (q.1.carry lx' (cs ++ [c]), q.2) := by
  cases hw with
  | word hrun =>
    simp only [Mode.carry, Mode.next?, h.classify_eq]
    split
    · simp [Trie.walkFrom?_concat]
    · rfl
  | int hrun | float hrun hrun' =>
    simp only [Mode.carry, Mode.next?, h.classify_eq]
    split
    · rfl
    · split <;> rfl
  | point hrun =>
    simp only [Mode.carry, Mode.next?, h.classify_eq]
    split <;> rfl
  | @operator _ n hne hwalk =>
    obtain ⟨n', hn'⟩ := h.exists_walk hwalk
    -- Both trees go on with the character or neither does.
    have hstep : (lx'.operators.step? n' c).isSome = (lx.operators.step? n c).isSome := by
      simpa [Trie.walkFrom?_concat, hwalk, hn'] using h.walk_isSome (cs ++ [c])
    simp only [Mode.carry, Mode.next?, h.classify_eq, hn', Option.getD_some]
    split
    · cases hs : lx.operators.step? n c with
      | none =>
        have hs' : lx'.operators.step? n' c = none := by simpa [hs] using hstep
        simp [hs']
      | some a =>
        obtain ⟨a', hs'⟩ := Option.isSome_iff_exists.mp (hstep.trans (by simp [hs]))
        simp [hs', Trie.walkFrom?_concat, hn']
    · rfl

theorem accept?_carry (h : SameOperators lx lx' v v') {s : String} (hw : Within lx m k s.toList) :
    (m.carry lx' s.toList).accept? lx' k =
      (m.accept? lx k).map (TokenKind.relabel v' s) := by
  generalize hs : s.toList = cs at hw
  cases hw with
  | word hrun =>
    have hkw := h.right.keywords.any_isTerminal_iff s
    rw [hs] at hkw
    simp only [Mode.carry, Mode.accept?, Option.map_some, hkw, apply_ite (TokenKind.relabel v' s)]
    simp [TokenKind.relabel]
  | int hrun | float hrun hrun' => rfl
  | point hrun => rfl
  | operator hne hwalk =>
    obtain ⟨n', hn'⟩ := h.exists_walk hwalk
    simp only [Mode.carry, Mode.accept?, hn', Option.getD_some, h.isTerminal_eq hwalk hn']
    split <;> rfl

end SameOperators

/-! ## Readings -/

namespace Progress

/-- The counterpart of a progress in another lexicon. -/
def carry (lx : Lexicon) (v : Vocabulary) (p : Progress) : Progress where
  position := p.position
  state := { p.state with mode := p.state.mode.carry lx p.state.lexeme.toList }
  tokens := p.tokens.map (Token.relabel v)

theorem carry_initial : initial.carry lx v = initial := by
  simp [carry, initial, State.initial, Mode.carry]

theorem carry_skip : (p.skip c).carry lx v = (p.carry lx v).skip c := rfl

theorem carry_begun :
    (p.begun c m).carry lx v = (p.carry lx v).begun c (m.carry lx [c]) := by
  simp [carry, begun]

theorem carry_extended :
    (p.extended c m k).carry lx v =
      (p.carry lx v).extended c (m.carry lx (p.state.lexeme.toList ++ [c])) k := by
  simp [carry, extended]

theorem carry_closed :
    (p.closed kind).carry lx v = (p.carry lx v).closed (kind.relabel v p.state.lexeme) := by
  simp [carry, closed, State.token, Token.relabel, Mode.carry]

theorem refusedAtEnd_carry : (p.carry lx v).refusedAtEnd = p.refusedAtEnd := by
  simp [carry, refusedAtEnd]

end Progress

namespace SameOperators

theorem refusedAt_carry (h : SameOperators lx lx' v v') :
    (p.carry lx' v').refusedAt lx' c = p.refusedAt lx c := by
  simp [Progress.carry, Progress.refusedAt, h.classify_eq]

/-- Between tokens, a character does the same in both lexicons. -/
theorem read_carry_gap (h : SameOperators lx lx' v v') (hg : p.state.mode = .gap)
    (hk : p.state.kind = .int) (c : Char) :
    (p.carry lx' v').read lx' c = (p.read lx c).map (Progress.carry lx' v') := by
  have hg' : (p.carry lx' v').state.mode = .gap := by simp [Progress.carry, hg, Mode.carry]
  by_cases hb : Text.isBlank c = true
  · rw [Progress.read_blank hg' hb, Progress.read_blank hg hb, ← Progress.carry_skip]
    rfl
  · cases hm : Mode.begin? lx c with
    | none =>
      have hm' : Mode.begin? lx' c = none := by rw [h.begin?_carry, hm]; rfl
      rw [Progress.read_refused_gap hg' hb hm', Progress.read_refused_gap hg hb hm,
        h.refusedAt_carry]
      rfl
    | some m =>
      have hm' : Mode.begin? lx' c = some (m.carry lx' [c]) := by rw [h.begin?_carry, hm]; rfl
      rw [Progress.read_begin hg' hk hm', Progress.read_begin hg hk hm, ← Progress.carry_begun]
      rfl

/-- Every character that is read does the same in both lexicons. -/
theorem read_carry (h : SameOperators lx lx' v v') (hs : Stands lx v pre p) (c : Char) :
    (p.carry lx' v').read lx' c = (p.read lx c).map (Progress.carry lx' v') := by
  cases hs with
  | between hb _ _ => exact h.read_carry_gap hb.mode hb.kind c
  | inside hi _ =>
    have hw := hi.within
    have hw' := h.within_carry hw
    have hnext := h.next?_carry hw c
    have hacc := h.accept?_carry hw
    cases hn : p.state.mode.next? lx p.state.kind c with
    | some q =>
      rw [hn] at hnext
      rw [Progress.read_next (p := p.carry lx' v') hnext, Progress.read_next hn]
      simp only [Except.map, Progress.carry_extended]
    | none =>
      rw [hn] at hnext
      by_cases hy : p.state.mode.Yields (lx.classify c)
      · have hy' : (p.carry lx' v').state.mode.Yields (lx'.classify c) := by
          rw [h.classify_eq]
          exact Mode.yields_carry.mpr hy
        cases ha : p.state.mode.accept? lx p.state.kind with
        | some kind =>
          -- The lexeme ends, and the character is read as between tokens.
          rw [ha] at hacc
          rw [Progress.read_handover (p := p.carry lx' v') hw' hacc hnext hy',
            Progress.read_handover hw ha hn hy, ← h.read_carry_gap rfl rfl c,
            Progress.carry_closed]
        | none =>
          rw [ha] at hacc
          rw [Progress.read_refused_within (p := p.carry lx' v') hw' hnext (Or.inl hacc),
            Progress.read_refused_within hw hn (Or.inl ha), h.refusedAt_carry]
          rfl
      · have hy' : ¬(p.carry lx' v').state.mode.Yields (lx'.classify c) := by
          rw [h.classify_eq]
          exact mt Mode.yields_carry.mp hy
        rw [Progress.read_refused_within (p := p.carry lx' v') hw' hnext (Or.inr hy'),
          Progress.read_refused_within hw hn (Or.inr hy), h.refusedAt_carry]
        rfl

/-- So does the end of the input. -/
theorem close_carry (h : SameOperators lx lx' v v') (hs : Stands lx v pre p) :
    (p.carry lx' v').close lx' = (p.close lx).map (List.map (Token.relabel v')) := by
  cases hs with
  | between hb _ _ =>
    have hg' : (p.carry lx' v').state.mode = .gap := by simp [Progress.carry, hb.mode, Mode.carry]
    rw [Progress.close_gap hg', Progress.close_gap hb.mode]
    simp [Progress.carry, Except.map]
  | inside hi _ =>
    have hm' : (p.carry lx' v').state.mode ≠ .gap := (h.within_carry hi.within).mode_ne_gap
    have hacc := h.accept?_carry hi.within
    cases ha : p.state.mode.accept? lx p.state.kind with
    | some kind =>
      rw [ha] at hacc
      rw [Progress.close_within hm' hacc, Progress.close_within hi.within.mode_ne_gap ha]
      change Except.ok ((p.carry lx' v').closed (kind.relabel v' p.state.lexeme)).tokens.toList = _
      rw [← Progress.carry_closed]
      simp [Progress.carry, Except.map]
    | none =>
      rw [ha] at hacc
      rw [Progress.close_refused hm' hacc, Progress.close_refused hi.within.mode_ne_gap ha,
        Progress.refusedAtEnd_carry]
      rfl

theorem readAll_carry (h : SameOperators lx lx' v v') (cs : List Char) :
    Progress.initial.readAll lx' cs =
      (Progress.initial.readAll lx cs).map (Progress.carry lx' v') := by
  induction cs using List.reverseRecOn with
  | nil => simp [Except.map, Progress.carry_initial]
  | append_singleton cs c ih =>
    rw [Progress.readAll_append, Progress.readAll_append, ih]
    cases hread : Progress.initial.readAll lx cs with
    | error e => rfl
    | ok p =>
      simp only [Except.map, Except.bind, Progress.readAll_singleton]
      exact h.read_carry (stands_of_readAll h.left hread) c

/-- The results of two lexicons with the same operators differ in nothing but which words are
    keywords; the errors are the same. -/
theorem tokenize_transfer (h : SameOperators lx lx' v v') (text : String) :
    lx'.tokenize text = (lx.tokenize text).map (List.map (Token.relabel v')) := by
  rw [tokenize_eq, tokenize_eq, h.readAll_carry]
  cases hread : Progress.initial.readAll lx text.toList with
  | error e => rfl
  | ok p => exact h.close_carry (stands_of_readAll h.left hread)

end SameOperators

end Scan

end Lexis
