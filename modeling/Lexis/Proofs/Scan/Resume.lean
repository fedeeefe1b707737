import Lexis.Proofs.Scan.Invariant

/-!
  Lexis.Proofs.Scan.Resume

  A scan does not care what it has read before, as long as it stands between tokens. Reading a text
  from such a place gives what reading it alone gives, with all places shifted by the text before
  and the old tokens in front (`tokenize_resume`).

  The machine keeps the lexeme most recently begun, and with it the place where that began, until
  another begins. So the two readings differ in one more respect: until the first lexeme, the
  resumed machine still remembers the last one from before. `State.resume` says so, and every move
  commutes with it.
-/

namespace Lexis

/-! ## Shifted places -/

/-- The column of a place, when `before` is put in front of the text: only on the first line does it
    change. -/
def Text.shiftColumn (before : List Char) (line column : Nat) : Nat :=
  if line = 1 then column + Text.lastLineLength before else column

/-- A position in a text, when `before` is put in front of the text. -/
def Position.shift (before : List Char) (p : Position) : Position where
  offset := p.offset + Text.byteLength before
  line := p.line + before.count '\n'
  column := Text.shiftColumn before p.line p.column

/-- A cursor in a text, when `before` is put in front of the text. -/
def Cursor.shift (before : List Char) (cur : Cursor) : Cursor :=
  ⟨cur.rest, cur.position.shift before⟩

/-- A span in a text, when `before` is put in front of the text. -/
def Span.shift (before : List Char) (s : Span) : Span where
  start := s.start + Text.byteLength before
  stop := s.stop + Text.byteLength before
  line := s.line + before.count '\n'
  column := Text.shiftColumn before s.line s.column

/-- A token of a text, when `before` is put in front of the text. -/
def Token.shift (before : List Char) (t : Token) : Token := { t with span := t.span.shift before }

/-- An error of a text, when `before` is put in front of the text: the place is shifted, and `last`
    is the context where there was none. -/
def LexError.shift (before : List Char) (last : String) (e : LexError) : LexError where
  fault := e.fault
  found := e.found
  context := if e.context = "" then last else e.context
  span := e.span.shift before

/-- A result for a text, when `before` is put in front of the text. -/
def shiftResult {α β : Type} (before : List Char) (last : String) (f : α → β) :
    Except LexError α → Except LexError β
  | .ok a => .ok (f a)
  | .error e => .error (e.shift before last)

section

variable {before : List Char} {p : Position} {c : Char} {cs : List Char}

theorem Position.shift_start (before : List Char) :
    Position.start.shift before = Position.start.after before := by
  have hline := Position.after_line .start before
  have hcolumn := Position.after_start_column before
  have hoffset := Position.after_offset .start before
  cases hp : Position.start.after before with
  | mk offset line column =>
    rw [hp] at hline hcolumn hoffset
    simp only at hline hcolumn hoffset
    simp [shift, hline, hcolumn, hoffset, Position.start, Text.shiftColumn, Nat.add_comm]

/-- A line end resets the column in both texts. -/
theorem Position.shift_advance (h : 1 ≤ p.line) :
    (p.advance c).shift before = (p.shift before).advance c := by
  by_cases hc : c = '\n'
  · simp [advance, hc, shift, Text.shiftColumn, Nat.add_right_comm, Nat.ne_of_gt h]
  · by_cases hline : p.line = 1
    · simp [advance, hc, shift, Text.shiftColumn, hline, Nat.add_right_comm]
    · simp [advance, hc, shift, Text.shiftColumn, hline, Nat.add_right_comm]

@[simp] theorem Cursor.span_shift (cur : Cursor) :
    (cur.shift before).span = cur.span.shift before := by
  simp [Cursor.span, Cursor.shift, Cursor.current?, Position.shift, Span.shift, Nat.add_right_comm]

theorem Span.withStop_shift (s : Span) (stop : Nat) :
    (s.shift before).withStop (stop + Text.byteLength before) =
      (s.withStop stop).shift before := by
  simp [withStop, shift, Nat.add_max_add_right]

end

namespace Scan

variable {lx : Lexicon} {v : Vocabulary} {before : List Char} {base s : State} {cur : Cursor}
  {c : Char}

/-- The state after a text that has been read on from `base`, where `s` is the state after the text
    alone. -/
def State.resume (before : List Char) (base s : State) : State :=
  if s.lexeme = "" then { s with lexeme := base.lexeme, start := base.start }
  else { s with start := s.start.shift before }

/-- The move of a machine that has been resumed. -/
def Move.resume (before : List Char) (base : State) (move : Move) : Move where
  emitted := move.emitted.map (Token.shift before)
  next := shiftResult before base.lexeme (base.resume before) move.next

namespace State

@[simp] theorem resume_mode : (base.resume before s).mode = s.mode := by
  unfold resume
  split <;> rfl

@[simp] theorem resume_kind : (base.resume before s).kind = s.kind := by
  unfold resume
  split <;> rfl

theorem resume_of_ne (h : s.lexeme ≠ "") :
    base.resume before s = { s with start := s.start.shift before } :=
  if_neg h

/-! ## Pieces of a move -/

@[simp] theorem problem_resume (fault : LexFault) (found : Found) :
    (base.resume before s).problem (cur.shift before) fault found =
      (s.problem cur fault found).shift before base.lexeme := by
  unfold problem resume LexError.shift
  rw [Cursor.span_shift]
  split <;> rfl

@[simp] theorem rejection_resume (cls : CharClass) :
    (base.resume before s).rejection (cur.shift before) c cls =
      (s.rejection cur c cls).shift before base.lexeme := by
  cases cls <;> simp [rejection]

@[simp] theorem begin_resume (m : Mode) :
    (base.resume before s).begin (cur.shift before) c m =
      base.resume before (s.begin cur c m) := by
  have hne : (s.begin cur c m).lexeme ≠ "" := by simp [begin]
  rw [resume_of_ne hne]
  simp [begin]

@[simp] theorem beginNumber_resume :
    (base.resume before s).beginNumber (cur.shift before) c =
      base.resume before (s.beginNumber cur c) := by
  have hne : (s.beginNumber cur c).lexeme ≠ "" := by simp [beginNumber, begin]
  rw [resume_of_ne hne]
  simp [beginNumber, begin]

@[simp] theorem beginOperator_resume :
    (base.resume before s).beginOperator lx (cur.shift before) c =
      shiftResult before base.lexeme (base.resume before) (s.beginOperator lx cur c) := by
  unfold beginOperator
  cases lx.operators.start? c <;> simp [shiftResult]

@[simp] theorem rest_resume : (base.resume before s).rest = base.resume before s.rest := by
  unfold resume rest
  split <;> rfl

theorem resume_withKind (k : NumberKind) :
    { base.resume before s with kind := k } = base.resume before { s with kind := k } := by
  unfold resume
  split <;> rfl

@[simp] theorem afterNumber_resume :
    (base.resume before s).afterNumber = base.resume before s.afterNumber :=
  resume_withKind .int

theorem token_resume (h : s.lexeme ≠ "") (kind : TokenKind) :
    (base.resume before s).token (cur.shift before) kind = (s.token cur kind).shift before := by
  rw [resume_of_ne h]
  simp only [token, Token.shift, Cursor.shift, Position.shift, Span.withStop_shift]

theorem extend_resume (h : s.lexeme ≠ "") (m : Mode) :
    (base.resume before s).extend c m = base.resume before (s.extend c m) := by
  have hne : (s.extend c m).lexeme ≠ "" := by simp [extend]
  rw [resume_of_ne h, resume_of_ne hne]
  rfl

theorem operatorToken_resume (h : s.lexeme ≠ "") (node : NodeId) (found : Found) :
    (base.resume before s).operatorToken lx (cur.shift before) node found =
      shiftResult before base.lexeme (Token.shift before) (s.operatorToken lx cur node found) := by
  unfold operatorToken
  split
  · rw [token_resume h]
    rfl
  · rw [problem_resume]
    rfl

theorem leaveOperator_resume (h : s.lexeme ≠ "") (node : NodeId) (next : Except LexError State) :
    (base.resume before s).leaveOperator lx (cur.shift before) node c
        (shiftResult before base.lexeme (base.resume before) next) =
      (s.leaveOperator lx cur node c next).resume before base := by
  unfold leaveOperator
  rw [operatorToken_resume h]
  cases s.operatorToken lx cur node (.char c) <;> rfl

/-! ## Moves -/

/-- Every move commutes with resuming. Only between tokens may no lexeme have been begun. -/
theorem step_resume (before : List Char) (base : State) (cur : Cursor)
    (h : s.mode ≠ .gap → s.lexeme ≠ "") :
    (base.resume before s).step lx (cur.shift before) c =
      (s.step lx cur c).resume before base := by
  -- The class of the character and the trees are the same for both; what differs is carried by
  -- the pieces of the move.
  simp only [step, resume_mode]
  cases hm : s.mode with
  | gap =>
    cases hc : lx.classify c <;> simp [stepGap, beginWord, Move.resume, shiftResult]
  | word keyword =>
    replace h : s.lexeme ≠ "" := h (by simp [hm])
    cases hc : lx.classify c <;>
      simp [stepWord, wordToken, token_resume h, extend_resume h, Move.resume, shiftResult]
  | number =>
    replace h : s.lexeme ≠ "" := h (by simp [hm])
    cases hc : lx.classify c with
    | dot =>
      cases hk : s.kind with
      | int =>
        simp only [stepNumber, resume_kind, hk, extend_resume h, resume_withKind]
        rfl
      | float => simp [stepNumber, hk, Move.resume, shiftResult]
    | _ =>
      simp [stepNumber, numberToken, token_resume h, extend_resume h, Move.resume, shiftResult]
  | fraction =>
    replace h : s.lexeme ≠ "" := h (by simp [hm])
    cases hk : s.kind with
    | int => simp [stepFraction, hk, hm, Move.resume, shiftResult]
    | float =>
      cases hc : lx.classify c <;>
        simp [stepFraction, hk, extend_resume h, Move.resume, shiftResult]
  | operator node =>
    replace h : s.lexeme ≠ "" := h (by simp [hm])
    cases hc : lx.classify c with
    | whitespace | letter | digit =>
      simp only [stepOperator]
      rw [← leaveOperator_resume h]
      simp [shiftResult, beginWord]
    | operator =>
      simp only [stepOperator]
      cases lx.operators.step? node c with
      | some next => simp [extend_resume h, Move.resume, shiftResult]
      | none =>
        rw [← leaveOperator_resume h]
        simp
    | dot | unknown => simp [stepOperator, Move.resume, shiftResult]

/-- The end of the input commutes with resuming. -/
theorem finish_resume (before : List Char) (base : State) (cur : Cursor)
    (h : s.mode ≠ .gap → s.lexeme ≠ "") :
    (base.resume before s).finish lx (cur.shift before) =
      shiftResult before base.lexeme (Option.map (Token.shift before)) (s.finish lx cur) := by
  simp only [finish, resume_mode]
  cases hm : s.mode with
  | gap => rfl
  | word keyword =>
    replace h : s.lexeme ≠ "" := h (by simp [hm])
    simp [wordToken, token_resume h, shiftResult]
  | number =>
    replace h : s.lexeme ≠ "" := h (by simp [hm])
    simp [numberToken, token_resume h, shiftResult]
  | fraction => simp [shiftResult]
  | operator node =>
    replace h : s.lexeme ≠ "" := h (by simp [hm])
    simp only [operatorToken_resume h]
    cases s.operatorToken lx cur node .endOfInput <;> rfl

end State

/-! ## Readings -/

namespace Progress

variable {q p : Progress} {cs : List Char}

/-- The progress after a text that has been read on from `q`, where `p` is the progress after the
    text alone. -/
def resume (before : List Char) (q p : Progress) : Progress where
  position := p.position.shift before
  state := q.state.resume before p.state
  tokens := q.tokens ++ p.tokens.map (Token.shift before)

/-- Nothing has been read yet. -/
theorem resume_initial (hpos : q.position = Position.start.after before)
    (hm : q.state.mode = .gap) (hk : q.state.kind = .int) : q.resume before initial = q := by
  obtain ⟨pos, ⟨m, lexeme, k, start⟩, tokens⟩ := q
  simp only at hpos hm hk
  subst hpos hm hk
  -- The empty lexeme of the initial state stands for the one that `q` still remembers.
  simp [resume, initial, State.resume, State.initial, Position.shift_start]

theorem addToken_resume (t : Option Token) :
    addToken (q.tokens ++ p.tokens.map (Token.shift before)) (t.map (Token.shift before)) =
      q.tokens ++ (addToken p.tokens t).map (Token.shift before) := by
  cases t <;> simp [addToken]

theorem read_resume (hline : 1 ≤ p.position.line) (h : p.state.mode ≠ .gap → p.state.lexeme ≠ "") :
    (q.resume before p).read lx c =
      shiftResult before q.state.lexeme (q.resume before) (p.read lx c) := by
  have hstep : (q.resume before p).state.step lx ⟨[c], (q.resume before p).position⟩ c =
      (p.state.step lx ⟨[c], p.position⟩ c).resume before q.state :=
    State.step_resume before q.state ⟨[c], p.position⟩ h
  simp only [read, hstep]
  cases hnext : (p.state.step lx ⟨[c], p.position⟩ c).next with
  | error e => simp [Move.resume, hnext, shiftResult]
  | ok s =>
    simp only [Move.resume, hnext, shiftResult, resume, Position.shift_advance hline,
      addToken_resume]

theorem close_resume (h : p.state.mode ≠ .gap → p.state.lexeme ≠ "") :
    (q.resume before p).close lx =
      shiftResult before q.state.lexeme (fun ts => q.tokens.toList ++ ts.map (Token.shift before))
        (p.close lx) := by
  have hfinish : (q.resume before p).state.finish lx ⟨[], (q.resume before p).position⟩ =
      shiftResult before q.state.lexeme (Option.map (Token.shift before))
        (p.state.finish lx ⟨[], p.position⟩) :=
    State.finish_resume before q.state ⟨[], p.position⟩ h
  simp only [close, hfinish]
  cases hlast : p.state.finish lx ⟨[], p.position⟩ with
  | error e => rfl
  | ok last => simp [shiftResult, resume, addToken_resume]

end Progress

/-! ## Whole texts -/

theorem Stands.lexeme_ne_empty {pre : List Char} {p : Progress} (h : Stands lx v pre p)
    (hm : p.state.mode ≠ .gap) : p.state.lexeme ≠ "" := by
  cases h with
  | between hb _ _ => exact absurd hb.mode hm
  | inside hi _ => simpa using hi.within.ne_nil

theorem readAll_resume (hr : lx.Represents v) {q : Progress}
    (hq : q.resume before Progress.initial = q) (cs : List Char) :
    q.readAll lx cs =
      shiftResult before q.state.lexeme (q.resume before) (Progress.initial.readAll lx cs) := by
  induction cs using List.reverseRecOn with
  | nil => simp [shiftResult, hq]
  | append_singleton cs c ih =>
    rw [Progress.readAll_append, Progress.readAll_append, ih]
    cases hread : Progress.initial.readAll lx cs with
    | error e => rfl
    | ok p =>
      -- Lines count from one, so a line end of the text leaves its first line for good.
      have hline : 1 ≤ p.position.line := by
        rw [Progress.position_of_readAll hread, Position.after_line]
        exact Nat.le_add_right 1 _
      have hne := (stands_of_readAll hr hread).lexeme_ne_empty
      simp only [shiftResult, Except.bind, Progress.readAll_singleton]
      exact Progress.read_resume hline hne

/-- A text that is read on from a place between tokens gives its own result, shifted. -/
theorem tokenize_resume (hr : lx.Represents v) {q : Progress}
    (hpos : q.position = Position.start.after before) (hm : q.state.mode = .gap)
    (hk : q.state.kind = .int) (text : String) :
    (q.readAll lx text.toList).bind (Progress.close lx) =
      shiftResult before q.state.lexeme (fun ts => q.tokens.toList ++ ts.map (Token.shift before))
        (lx.tokenize text) := by
  rw [readAll_resume hr (Progress.resume_initial hpos hm hk), tokenize_eq]
  cases hread : Progress.initial.readAll lx text.toList with
  | error e => rfl
  | ok p => exact Progress.close_resume (stands_of_readAll hr hread).lexeme_ne_empty

end Scan

end Lexis
