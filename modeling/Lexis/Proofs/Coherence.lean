import Lexis.Proofs.Scan.Invariant

/-!
  Lexis.Proofs.Coherence

  The state of the machine between two characters. Its mode, the lexeme at hand, the kind of the
  number at hand, the place where the lexeme began and the nodes of the two trees are kept apart,
  and each move changes several of them; `Scan.Coherent` says how they belong together. Every state
  that a scan goes through is coherent, because what has been read is a layout and a part of a
  lexeme (`Stands`), and so the move that would find the machine in disorder is never made.
-/

namespace Lexis

namespace Scan

/-- The parts of a state belong together, after a part of `text` has been read. -/
structure Coherent (lx : Lexicon) (text : String) (p : Progress) : Prop where
  /-- Between tokens, the lexeme is still the one of the last token. -/
  gap : p.state.mode = .gap → p.state.lexeme = (p.tokens.back?.map Token.value).getD ""
  /-- A word consists of letters, and its node is where they lead in the tree of keywords. -/
  word : ∀ keyword, p.state.mode = .word keyword →
    IsRun CharClass.isLetter p.state.lexeme.toList ∧ keyword = lx.keywords.walk? p.state.lexeme
  /-- A number is a run of digits, or two of them with a point between. -/
  number : p.state.mode = .number →
    (p.state.kind = .int ∧ IsRun CharClass.isDigit p.state.lexeme.toList) ∨
      (p.state.kind = .float ∧ ∃ whole fraction, IsRun CharClass.isDigit whole ∧
        IsRun CharClass.isDigit fraction ∧ p.state.lexeme.toList = whole ++ '.' :: fraction)
  /-- After the point, there are digits before it and none behind it. -/
  fraction : p.state.mode = .fraction →
    p.state.kind = .float ∧
      ∃ whole, IsRun CharClass.isDigit whole ∧ p.state.lexeme.toList = whole ++ ['.']
  /-- The node of an operator is where its characters lead in the tree of operators. -/
  operator : ∀ node, p.state.mode = .operator node →
    p.state.lexeme ≠ "" ∧ lx.operators.walk? p.state.lexeme = some node
  /-- Only a number has a kind other than the one that every number begins with. -/
  kind : p.state.mode ≠ .number → p.state.mode ≠ .fraction → p.state.kind = .int
  /-- A lexeme at hand is what stands between its beginning and the cursor. -/
  slice : p.state.mode ≠ .gap →
    Text.slice? text.toList p.state.start.start p.position.offset = some p.state.lexeme.toList

variable {lx : Lexicon} {v : Vocabulary} {d : Layout} {text : String} {p q : Progress}
  {pre post as bs : List Char} {e : LexError}

/-! ## What a mode knows -/

section

variable {m : Mode} {k : NumberKind} {keyword : Option NodeId} {node : NodeId} {cs : List Char}

theorem Within.of_word (h : Within lx (.word keyword) k cs) :
    IsRun CharClass.isLetter cs ∧ keyword = lx.keywords.walkFrom? Trie.root cs := by
  cases h with
  | word hrun => exact ⟨hrun, rfl⟩

theorem Within.of_number (h : Within lx .number k cs) :
    (k = .int ∧ IsRun CharClass.isDigit cs) ∨
      (k = .float ∧ ∃ whole fraction, IsRun CharClass.isDigit whole ∧
        IsRun CharClass.isDigit fraction ∧ cs = whole ++ '.' :: fraction) := by
  cases h with
  | int hrun => exact Or.inl ⟨rfl, hrun⟩
  | float hrun hrun' => exact Or.inr ⟨rfl, _, _, hrun, hrun', rfl⟩

theorem Within.of_fraction (h : Within lx .fraction k cs) :
    k = .float ∧ ∃ whole, IsRun CharClass.isDigit whole ∧ cs = whole ++ ['.'] := by
  cases h with
  | point hrun => exact ⟨rfl, _, hrun, rfl⟩

theorem Within.of_operator (h : Within lx (.operator node) k cs) :
    cs ≠ [] ∧ lx.operators.walkFrom? Trie.root cs = some node := by
  cases h with
  | operator hne hwalk => exact ⟨hne, hwalk⟩

theorem Within.kind_eq_int (h : Within lx m k cs) (hnumber : m ≠ .number)
    (hfraction : m ≠ .fraction) : k = .int := by
  cases h with
  | word | operator => rfl
  | int | float => exact absurd rfl hnumber
  | point => exact absurd rfl hfraction

end

/-! ## Coherent states -/

theorem Between.coherent (h : Between v d p) : Coherent lx text p where
  gap := by
    intro _
    rw [h.lexeme, Layout.lastValue_eq, ← h.tokens, Array.getLast?_toList]
  word := by simp [h.mode]
  number := by simp [h.mode]
  fraction := by simp [h.mode]
  operator := by simp [h.mode]
  kind := fun _ _ => h.kind
  slice := fun hm => absurd h.mode hm

theorem Inside.slice_eq (h : Inside lx v d p)
    (htext : text.toList = d.chars ++ p.state.lexeme.toList ++ post) :
    Text.slice? text.toList p.state.start.start p.position.offset =
      some p.state.lexeme.toList := by
  obtain ⟨c, hstart⟩ := h.start
  have hfrom : p.state.start.start = Text.byteLength d.chars := by
    simp [hstart, Cursor.span, Position.start]
  have hto : p.position.offset =
      Text.byteLength d.chars + Text.byteLength p.state.lexeme.toList := by
    simp [h.position, Position.start]
  rw [hfrom, hto, htext]
  exact Source.slice?_boundary d.chars p.state.lexeme.toList post

theorem Inside.coherent (h : Inside lx v d p)
    (htext : text.toList = d.chars ++ p.state.lexeme.toList ++ post) : Coherent lx text p where
  gap := fun hm => absurd hm h.within.mode_ne_gap
  word := fun keyword hm => Within.of_word (hm ▸ h.within)
  number := fun hm => Within.of_number (hm ▸ h.within)
  fraction := fun hm => Within.of_fraction (hm ▸ h.within)
  operator := by
    intro node hm
    obtain ⟨hne, hwalk⟩ := Within.of_operator (hm ▸ h.within)
    exact ⟨by simpa using hne, hwalk⟩
  kind := h.within.kind_eq_int
  slice := fun _ => h.slice_eq htext

/-- Whatever has been read, the state is coherent. -/
theorem Stands.coherent (h : Stands lx v pre p) (htext : text.toList = pre ++ post) :
    Coherent lx text p := by
  cases h with
  | between hb _ _ => exact hb.coherent
  | inside hi hpre => exact hi.coherent (by rw [htext, hpre])

/-! ## Reading is scanning -/

/-- A scan goes on from the state that the characters read so far have led to. -/
theorem run_of_readAll (h : p.readAll lx as = .ok q) :
    run lx (as ++ bs) p.position p.state p.tokens = run lx bs q.position q.state q.tokens := by
  -- A move sees the rest of the text only through its first character, so both read the same.
  induction as generalizing p with
  | nil =>
    obtain rfl : p = q := by simpa using h
    rfl
  | cons c as ih =>
    rw [Progress.readAll_cons, Progress.read] at h
    rw [List.cons_append, run, step_cursor]
    cases hnext : (p.state.step lx ⟨[c], p.position⟩ c).next with
    | error e => simp [hnext, Except.bind] at h
    | ok s =>
      simp only [hnext] at h ⊢
      exact ih h

/-! ## Disorder -/

theorem Mode.refusal_ne_unexpectedState (m : Mode) (cls : CharClass) (phase : Phase) :
    m.refusal cls ≠ .unexpectedState phase := by
  cases m <;> cases cls <;> simp [Mode.refusal]

/-- A character is never refused because of the state of the machine alone. -/
theorem Stands.read_ne_unexpectedState (h : Stands lx v pre p) {c : Char}
    (hread : p.read lx c = .error e) (phase : Phase) : e.fault ≠ .unexpectedState phase := by
  rcases h.error_of_read hread with rfl | ⟨kind, -, rfl⟩
  · exact Mode.refusal_ne_unexpectedState _ _ phase
  · exact Mode.refusal_ne_unexpectedState _ _ phase

theorem tokenize_ne_unexpectedState (hr : lx.Represents v) (he : lx.tokenize text = .error e)
    (phase : Phase) : e.fault ≠ .unexpectedState phase := by
  rcases tokenize_eq_error_iff.mp he with hread | ⟨p, hread, hclose⟩
  · obtain ⟨pre, c, post, p, -, hpre, hc⟩ := Progress.readAll_eq_error_iff.mp hread
    exact (stands_of_readAll hr hpre).read_ne_unexpectedState hc phase
  · obtain ⟨-, -, rfl⟩ := (stands_of_readAll hr hread).error_of_close hclose
    exact Mode.refusal_ne_unexpectedState _ _ phase

end Scan

open Scan

/-- Every state that a scan goes through is coherent: after any number of characters that it has
    read, the scan goes on from a state whose parts belong together. So no scan ends with the error
    that stands for a machine in disorder. -/
theorem scan_stays_coherent {v : Vocabulary} (hv : v.validate = .ok ()) :
    ∃ lx, Lexicon.compile v = .ok lx ∧
      (∀ (text : String) (k : Nat) (p : Progress),
        Progress.initial.readAll lx (text.toList.take k) = .ok p →
          lx.scan text = run lx (text.toList.drop k) p.position p.state p.tokens ∧
          p.position = Position.start.after (text.toList.take k) ∧
          Coherent lx text p) ∧
      ∀ text e phase, lx.tokenize text = .error e → e.fault ≠ .unexpectedState phase := by
  obtain ⟨lx, hc, hr⟩ := Lexicon.compile_represents hv
  refine ⟨lx, hc, fun text k p hread => ?_, fun text e phase he => ?_⟩
  · have hsplit : text.toList = text.toList.take k ++ text.toList.drop k :=
      (List.take_append_drop k text.toList).symm
    refine ⟨?_, Progress.position_of_readAll hread, (stands_of_readAll hr hread).coherent hsplit⟩
    rw [← run_of_readAll hread, ← hsplit]
    rfl
  · exact tokenize_ne_unexpectedState hr he phase

/-- With the operators `<` and `<<=`, a scan of `if 3.5<x` stands behind the point after five
    characters: the number has a kind of its own by then, and its lexeme is the slice `3.`. -/
theorem coherent_after_the_point :
    Vocabulary.validate ⟨["if"], ["<", "<<="]⟩ = .ok () ∧
      ∃ lx, Lexicon.compile ⟨["if"], ["<", "<<="]⟩ = .ok lx ∧
        ∃ p, Progress.initial.readAll lx ("if 3.5<x".toList.take 5) = .ok p ∧
          p.state.mode = .fraction ∧ p.state.kind = .float ∧
          Text.slice? "if 3.5<x".toList p.state.start.start p.position.offset =
            some p.state.lexeme.toList ∧
          ∀ e phase, lx.tokenize "if 3.5<x" = .error e → e.fault ≠ .unexpectedState phase := by
  have hv : Vocabulary.validate ⟨["if"], ["<", "<<="]⟩ = .ok () := rfl
  obtain ⟨lx, hc, hcoherent, hfault⟩ := scan_stays_coherent hv
  have hmode : (Lexicon.compile ⟨["if"], ["<", "<<="]⟩).toOption.bind (fun lx =>
      (Progress.initial.readAll lx ("if 3.5<x".toList.take 5)).toOption.map (·.state.mode)) =
        some .fraction := rfl
  rw [hc] at hmode
  cases hread : Progress.initial.readAll lx ("if 3.5<x".toList.take 5) with
  | error e =>
    simp only [Except.toOption, Option.bind_some, hread] at hmode
    cases hmode
  | ok p =>
    simp only [Except.toOption, Option.bind_some, hread] at hmode
    have hfraction : p.state.mode = .fraction := Option.some.inj hmode
    obtain ⟨-, -, hp⟩ := hcoherent "if 3.5<x" 5 p hread
    refine ⟨hv, lx, hc, p, hread, hfraction, (hp.fraction hfraction).1, ?_, hfault _⟩
    exact hp.slice (by simp [hfraction])

end Lexis
