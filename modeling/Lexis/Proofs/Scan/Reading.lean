import Lexis.Proofs.Scan.Lexeme
import Lexis.Proofs.Source.Places

/-!
  Lexis.Proofs.Scan.Reading

  The scan as a reader that can be stopped between any two characters. A `Progress` is the machine
  together with its place and its tokens; a scan reads the characters one by one and closes the
  lexeme at hand at the end (`tokenize_eq`).

  A character does one of five things: it passes as white space, it begins a lexeme, it goes on
  with the lexeme at hand, it ends that lexeme and is then read as if it stood between tokens
  (`read_handover`), or it is refused. `read_gap_cases` and `read_within_cases` say which, and every
  invariant of the scan and every statement about its errors is derived from these two.
-/

namespace Lexis

namespace Scan

/-- The machine in the middle of a text. -/
structure Progress where
  /-- The place reached. -/
  position : Position
  /-- The state between two characters. -/
  state : State
  /-- The tokens completed so far. -/
  tokens : Array Token

namespace Progress

/-- Before the first character. -/
def initial : Progress := ⟨.start, .initial, #[]⟩

/-- Read one character. -/
def read (lx : Lexicon) (p : Progress) (c : Char) : Except LexError Progress :=
  let move := p.state.step lx ⟨[c], p.position⟩ c
  match move.next with
  | .ok s => .ok ⟨p.position.advance c, s, addToken p.tokens move.emitted⟩
  | .error e => .error e

/-- Read a text. -/
def readAll (lx : Lexicon) (p : Progress) (cs : List Char) : Except LexError Progress :=
  cs.foldlM (read lx) p

/-- Meet the end of the input. -/
def close (lx : Lexicon) (p : Progress) : Except LexError (List Token) :=
  match p.state.finish lx ⟨[], p.position⟩ with
  | .ok last => .ok (addToken p.tokens last).toList
  | .error e => .error e

variable {lx : Lexicon} {p q : Progress} {c : Char} {m : Mode} {k : NumberKind} {kind : TokenKind}
  {as bs cs : List Char} {e : LexError}

@[simp] theorem readAll_nil : p.readAll lx [] = .ok p := rfl

theorem readAll_cons : p.readAll lx (c :: cs) = (p.read lx c).bind fun q => q.readAll lx cs := by
  unfold readAll
  rw [List.foldlM_cons]
  rfl

theorem readAll_append :
    p.readAll lx (as ++ bs) = (p.readAll lx as).bind fun q => q.readAll lx bs := by
  unfold readAll
  rw [List.foldlM_append]
  rfl

theorem readAll_singleton : p.readAll lx [c] = p.read lx c := by
  rw [readAll_cons]
  cases p.read lx c <;> rfl

end Progress

/-! ## The scan as a reading -/

/-- A move looks at one character only. -/
theorem step_cursor (lx : Lexicon) (s : State) (c : Char) (rest : List Char) (pos : Position) :
    s.step lx ⟨c :: rest, pos⟩ c = s.step lx ⟨[c], pos⟩ c := rfl

theorem run_result (lx : Lexicon) (cs : List Char) (pos : Position) (s : State)
    (done : Array Token) :
    (run lx cs pos s done).result =
      (Progress.readAll lx ⟨pos, s, done⟩ cs).bind (Progress.close lx) := by
  -- Both sides recurse on the text; the three accumulators are the fields of the progress.
  induction cs generalizing pos s done with
  | nil =>
    simp only [run, Progress.readAll_nil, Except.bind, Progress.close]
    cases s.finish lx ⟨[], pos⟩ <;> rfl
  | cons c cs ih =>
    rw [run, step_cursor, Progress.readAll_cons, Progress.read]
    simp only
    cases hnext : (s.step lx ⟨[c], pos⟩ c).next with
    | ok s' => exact ih _ _ _
    | error e => rfl

/-- A scan reads the whole text and closes the lexeme at hand. -/
theorem tokenize_eq (lx : Lexicon) (text : String) :
    lx.tokenize text = (Progress.initial.readAll lx text.toList).bind (Progress.close lx) :=
  run_result lx text.toList .start .initial #[]

/-! ## What one character does -/

/-- A lexeme in this mode may end before a character of this class: before white space and
    operator characters, and an operator also before letters and digits. -/
def Mode.Yields (m : Mode) (cls : CharClass) : Prop :=
  cls = .whitespace ∨ cls = .operator ∨ m.firstClass = .operator ∧ (cls = .letter ∨ cls = .digit)

/-- Why a character of a class is refused; the end of the input counts as white space. -/
def Mode.refusal : Mode → CharClass → LexFault
  | .gap, .operator => .invalidOperator .noOperatorStartsWith
  | .number, .dot => .malformedNumber .secondDecimalPoint
  | .fraction, _ => .malformedNumber .missingFraction
  | .operator _, .whitespace | .operator _, .operator
  | .operator _, .letter | .operator _, .digit => .invalidOperator .incomplete
  | _, .unknown => .unclassifiableCharacter
  | _, cls => .unexpectedCharacter cls

namespace Progress

variable {lx : Lexicon} {p q : Progress} {c : Char} {m : Mode} {k : NumberKind} {kind : TokenKind}
  {as bs cs : List Char} {e : LexError}

/-- The character `c` has passed and nothing else has changed. -/
def skip (p : Progress) (c : Char) : Progress := { p with position := p.position.advance c }

/-- The character `c` has begun a lexeme. -/
def begun (p : Progress) (c : Char) (m : Mode) : Progress :=
  ⟨p.position.advance c, ⟨m, String.singleton c, .int, Cursor.span ⟨[c], p.position⟩⟩, p.tokens⟩

/-- The character `c` has gone on with the lexeme at hand. -/
def extended (p : Progress) (c : Char) (m : Mode) (k : NumberKind) : Progress :=
  ⟨p.position.advance c, ⟨m, p.state.lexeme.push c, k, p.state.start⟩, p.tokens⟩

/-- The lexeme at hand has become a token. -/
def closed (p : Progress) (kind : TokenKind) : Progress :=
  ⟨p.position, ⟨.gap, p.state.lexeme, .int, p.state.start⟩,
    p.tokens.push (p.state.token ⟨[], p.position⟩ kind)⟩

/-- The error when the character `c` is refused. -/
def refusedAt (lx : Lexicon) (p : Progress) (c : Char) : LexError :=
  ⟨p.state.mode.refusal (lx.classify c), .char c, p.state.lexeme, Cursor.span ⟨[c], p.position⟩⟩

/-- The error when the end of the input is refused. -/
def refusedAtEnd (p : Progress) : LexError :=
  ⟨p.state.mode.refusal .whitespace, .endOfInput, p.state.lexeme, .point p.position⟩

theorem read_blank (hg : p.state.mode = .gap) (hc : Text.isBlank c = true) :
    p.read lx c = .ok (p.skip c) := by
  have hcls : lx.classify c = .whitespace := Lexicon.classify_eq_whitespace_iff.mpr hc
  obtain ⟨pos, ⟨mode, lexeme, kind, start⟩, tokens⟩ := p
  simp only at hg
  subst hg
  simp [read, State.step, State.stepGap, hcls, State.rest, addToken, skip]

theorem read_begin (hg : p.state.mode = .gap) (hk : p.state.kind = .int)
    (hb : Mode.begin? lx c = some m) : p.read lx c = .ok (p.begun c m) := by
  obtain ⟨pos, ⟨mode, lexeme, kind, start⟩, tokens⟩ := p
  simp only at hg hk
  subst hg hk
  unfold Mode.begin? at hb
  simp only [read, State.step, State.stepGap]
  split at hb
  · simp only [Option.some.injEq] at hb
    simp [*, State.beginWord, State.begin, addToken, begun]
  · simp only [Option.some.injEq] at hb
    simp [*, State.beginNumber, State.begin, addToken, begun]
  · obtain ⟨n, hn, rfl⟩ := Option.map_eq_some_iff.mp hb
    simp [*, State.beginOperator, State.begin, addToken, begun]
  all_goals simp at hb

theorem read_next (hn : p.state.mode.next? lx p.state.kind c = some (m, k)) :
    p.read lx c = .ok (p.extended c m k) := by
  obtain ⟨pos, ⟨mode, lexeme, kind, start⟩, tokens⟩ := p
  simp only at hn
  cases mode with
  | gap => simp [Mode.next?] at hn
  | word keyword =>
    simp only [Mode.next?, Option.ite_none_right_eq_some, Option.some.injEq, Prod.mk.injEq] at hn
    obtain ⟨hc, rfl, rfl⟩ := hn
    simp [read, State.step, State.stepWord, hc, State.extend, addToken, extended]
  | number =>
    simp only [Mode.next?] at hn
    split at hn
    · rename_i hc
      simp only [Option.some.injEq, Prod.mk.injEq] at hn
      obtain ⟨rfl, rfl⟩ := hn
      simp [read, State.step, State.stepNumber, hc, State.extend, addToken, extended]
    · simp only [Option.ite_none_right_eq_some, Option.some.injEq, Prod.mk.injEq] at hn
      obtain ⟨⟨hc, rfl⟩, rfl, rfl⟩ := hn
      simp [read, State.step, State.stepNumber, hc, State.extend, addToken, extended]
  | fraction =>
    simp only [Mode.next?, Option.ite_none_right_eq_some, Option.some.injEq, Prod.mk.injEq] at hn
    obtain ⟨⟨hc, rfl⟩, rfl, rfl⟩ := hn
    simp [read, State.step, State.stepFraction, hc, State.extend, addToken, extended]
  | operator node =>
    simp only [Mode.next?, Option.ite_none_right_eq_some, Option.map_eq_some_iff,
      Prod.mk.injEq] at hn
    obtain ⟨hc, n, hn, rfl, rfl⟩ := hn
    simp [read, State.step, State.stepOperator, hc, hn, State.extend, addToken, extended]

/-- Between tokens no token is completed. -/
theorem stepGap_emitted (s : State) (cur : Cursor) (cls : CharClass) :
    (s.stepGap lx cur c cls).emitted = none := by
  cases cls <;> rfl

/-- A move that ends the lexeme at hand completes its token and goes on as between tokens. -/
theorem step_handover {s : State} {cur : Cursor} {cs : List Char} (hw : Within lx s.mode s.kind cs)
    (ha : s.mode.accept? lx s.kind = some kind) (hn : s.mode.next? lx s.kind c = none)
    (hy : s.mode.Yields (lx.classify c)) :
    s.step lx cur c = ⟨some (s.token cur kind),
      (State.stepGap lx ⟨.gap, s.lexeme, .int, s.start⟩ cur c (lx.classify c)).next⟩ := by
  obtain ⟨mode, lexeme, k, start⟩ := s
  simp only at hw ha hn hy
  -- In every mode the move is written out once per class; each must agree with the move between
  -- tokens, from a state whose number kind has been reset.
  cases hw with
  | word hrun =>
    simp only [Mode.accept?, Option.some.injEq] at ha
    subst ha
    rcases hy with hc | hc | ⟨hop, -⟩
    · simp only [State.step, hc]
      rfl
    · simp only [State.step, hc]
      rfl
    · simp [Mode.firstClass] at hop
  | int hrun | float hrun hrun' =>
    simp only [Mode.accept?, Option.some.injEq] at ha
    subst ha
    rcases hy with hc | hc | ⟨hop, -⟩
    · simp only [State.step, hc]
      rfl
    · simp only [State.step, hc]
      rfl
    · simp [Mode.firstClass] at hop
  | point hrun => simp [Mode.accept?] at ha
  | @operator _ node hne hwalk =>
    simp only [Mode.accept?, Option.ite_none_right_eq_some, Option.some.injEq] at ha
    obtain ⟨hterm, rfl⟩ := ha
    have hleave : ∀ next,
        State.leaveOperator lx ⟨.operator node, lexeme, .int, start⟩ cur node c next =
        ⟨some (State.token ⟨.operator node, lexeme, .int, start⟩ cur .operator), next⟩ := by
      intro next
      simp [State.leaveOperator, State.operatorToken, hterm]
    rcases hy with hc | hc | ⟨-, hc | hc⟩
    · simp only [State.step, hc, State.stepOperator, hleave]
      rfl
    · have hstep : lx.operators.step? node c = none := by simpa [Mode.next?, hc] using hn
      simp only [State.step, hc, State.stepOperator, hstep, hleave]
      rfl
    · simp only [State.step, hc, State.stepOperator, hleave]
      rfl
    · simp only [State.step, hc, State.stepOperator, hleave]
      rfl

/-- A character that ends the lexeme at hand is read as if it stood between tokens. -/
theorem read_handover (hw : Within lx p.state.mode p.state.kind p.state.lexeme.toList)
    (ha : p.state.mode.accept? lx p.state.kind = some kind)
    (hn : p.state.mode.next? lx p.state.kind c = none)
    (hy : p.state.mode.Yields (lx.classify c)) : p.read lx c = (p.closed kind).read lx c := by
  rw [read, step_handover hw ha hn hy, read]
  simp only [closed, State.step, stepGap_emitted]
  rfl

/-! ## There is nothing else -/

theorem read_refused_gap (hg : p.state.mode = .gap) (hb : Text.isBlank c ≠ true)
    (hm : Mode.begin? lx c = none) : p.read lx c = .error (p.refusedAt lx c) := by
  have hws : lx.classify c ≠ .whitespace := mt Lexicon.classify_eq_whitespace_iff.mp hb
  obtain ⟨pos, ⟨mode, lexeme, kind, start⟩, tokens⟩ := p
  simp only at hg
  subst hg
  cases hc : lx.classify c with
  | whitespace => exact absurd hc hws
  | letter | digit => simp [Mode.begin?, hc] at hm
  | operator =>
    have hstart : lx.operators.start? c = none := by simpa [Mode.begin?, hc] using hm
    simp only [read, State.step, State.stepGap, State.beginOperator, hc, hstart, refusedAt]
    rfl
  | dot | unknown =>
    simp only [read, State.step, hc, refusedAt]
    rfl

/-- Inside a lexeme, a character is refused that neither goes on with it nor may end it. -/
theorem read_refused_within (hw : Within lx p.state.mode p.state.kind cs)
    (hn : p.state.mode.next? lx p.state.kind c = none)
    (hno : p.state.mode.accept? lx p.state.kind = none ∨ ¬p.state.mode.Yields (lx.classify c)) :
    p.read lx c = .error (p.refusedAt lx c) := by
  obtain ⟨pos, ⟨mode, lexeme, k, start⟩, tokens⟩ := p
  simp only at hw hn hno
  cases hw with
  | word hrun =>
    -- A word may always end, so the class is to blame; so it is for a number.
    have hy := hno.resolve_left (by simp [Mode.accept?])
    cases hc : lx.classify c with
    | whitespace | operator => simp [Mode.Yields, hc] at hy
    | letter => simp [Mode.next?, hc] at hn
    | digit | dot | unknown =>
      simp only [read, State.step, hc, refusedAt]
      rfl
  | int hrun =>
    have hy := hno.resolve_left (by simp [Mode.accept?])
    cases hc : lx.classify c with
    | whitespace | operator => simp [Mode.Yields, hc] at hy
    | digit | dot => simp [Mode.next?, hc] at hn
    | letter | unknown =>
      simp only [read, State.step, hc, refusedAt]
      rfl
  | float hrun hrun' =>
    have hy := hno.resolve_left (by simp [Mode.accept?])
    cases hc : lx.classify c with
    | whitespace | operator => simp [Mode.Yields, hc] at hy
    | digit => simp [Mode.next?, hc] at hn
    | letter | dot | unknown =>
      simp only [read, State.step, hc, refusedAt]
      rfl
  | point hrun =>
    -- After a decimal point every class but one is refused, white space included.
    cases hc : lx.classify c with
    | digit => simp [Mode.next?, hc] at hn
    | _ =>
      simp only [read, State.step, hc, refusedAt]
      rfl
  | @operator _ node hne hwalk =>
    -- Where the class would let an operator end, none ends here.
    have hterm : (Mode.operator node).Yields (lx.classify c) →
        lx.operators.isTerminal node = false := by
      intro hy
      simpa [Mode.accept?] using hno.resolve_right (not_not.mpr hy)
    cases hc : lx.classify c with
    | whitespace | letter | digit =>
      have hterm := hterm (by simp [Mode.Yields, hc, Mode.firstClass])
      simp only [read, State.step, State.stepOperator, State.leaveOperator, State.operatorToken, hc,
        hterm, refusedAt]
      rfl
    | operator =>
      have hterm := hterm (by simp [Mode.Yields, hc])
      have hstep : lx.operators.step? node c = none := by simpa [Mode.next?, hc] using hn
      simp only [read, State.step, State.stepOperator, State.leaveOperator, State.operatorToken, hc,
        hstep, hterm, refusedAt]
      rfl
    | dot | unknown =>
      simp only [read, State.step, hc, refusedAt]
      rfl

/-- Between tokens a character passes, begins a lexeme, or is refused. -/
theorem read_gap_cases (lx : Lexicon) (c : Char) (hg : p.state.mode = .gap)
    (hk : p.state.kind = .int) :
    (Text.isBlank c = true ∧ p.read lx c = .ok (p.skip c)) ∨
      (∃ m, Mode.begin? lx c = some m ∧ p.read lx c = .ok (p.begun c m)) ∨
      p.read lx c = .error (p.refusedAt lx c) := by
  by_cases hb : Text.isBlank c = true
  · exact Or.inl ⟨hb, read_blank hg hb⟩
  · cases hm : Mode.begin? lx c with
    | some m => exact Or.inr (Or.inl ⟨m, rfl, read_begin hg hk hm⟩)
    | none => exact Or.inr (Or.inr (read_refused_gap hg hb hm))

/-- What is refused between tokens is no white space and begins nothing. -/
theorem read_gap_error (hg : p.state.mode = .gap) (hk : p.state.kind = .int)
    (hread : p.read lx c = .error e) :
    Text.isBlank c ≠ true ∧ Mode.begin? lx c = none ∧ e = p.refusedAt lx c := by
  have hb : Text.isBlank c ≠ true := by
    intro hb
    simp [read_blank hg hb] at hread
  cases hm : Mode.begin? lx c with
  | some m => simp [read_begin hg hk hm] at hread
  | none =>
    rw [read_refused_gap hg hb hm] at hread
    exact ⟨hb, rfl, (Except.error.inj hread).symm⟩

/-- Inside a lexeme a character goes on with it, ends it where it may end, or is refused. -/
theorem read_within_cases (hw : Within lx p.state.mode p.state.kind p.state.lexeme.toList)
    (c : Char) :
    (∃ m k, p.state.mode.next? lx p.state.kind c = some (m, k) ∧
        p.read lx c = .ok (p.extended c m k)) ∨
      (∃ kind, p.state.mode.accept? lx p.state.kind = some kind ∧
        p.state.mode.next? lx p.state.kind c = none ∧ p.state.mode.Yields (lx.classify c) ∧
        p.read lx c = (p.closed kind).read lx c) ∨
      p.read lx c = .error (p.refusedAt lx c) := by
  cases hn : p.state.mode.next? lx p.state.kind c with
  | some mk => exact Or.inl ⟨mk.1, mk.2, rfl, read_next hn⟩
  | none =>
    right
    by_cases hy : p.state.mode.Yields (lx.classify c)
    · cases ha : p.state.mode.accept? lx p.state.kind with
      | some kind => exact Or.inl ⟨kind, rfl, rfl, hy, read_handover hw ha hn hy⟩
      | none => exact Or.inr (read_refused_within hw hn (Or.inl ha))
    · exact Or.inr (read_refused_within hw hn (Or.inr hy))

/-! ## The end of the input -/

/-- Between tokens the end of the input changes nothing. -/
theorem close_gap (hg : p.state.mode = .gap) : p.close lx = .ok p.tokens.toList := by
  simp [close, State.finish, hg, addToken]

/-- The end of the input completes a lexeme that may end. -/
theorem close_within (hm : p.state.mode ≠ .gap)
    (ha : p.state.mode.accept? lx p.state.kind = some kind) :
    p.close lx = .ok (p.closed kind).tokens.toList := by
  obtain ⟨pos, ⟨mode, lexeme, k, start⟩, tokens⟩ := p
  simp only at hm ha
  cases mode with
  | gap => exact absurd rfl hm
  | word keyword =>
    simp only [Mode.accept?, Option.some.injEq] at ha
    subst ha
    rfl
  | number =>
    simp only [Mode.accept?, Option.some.injEq] at ha
    subst ha
    rfl
  | fraction => simp [Mode.accept?] at ha
  | operator node =>
    simp only [Mode.accept?, Option.ite_none_right_eq_some, Option.some.injEq] at ha
    obtain ⟨hterm, rfl⟩ := ha
    simp [close, State.finish, State.operatorToken, hterm, Except.map, addToken, closed]

/-- The end of the input is refused inside a lexeme that may not end. -/
theorem close_refused (hm : p.state.mode ≠ .gap)
    (ha : p.state.mode.accept? lx p.state.kind = none) : p.close lx = .error p.refusedAtEnd := by
  obtain ⟨pos, ⟨mode, lexeme, k, start⟩, tokens⟩ := p
  simp only at hm ha
  cases mode with
  | gap => exact absurd rfl hm
  | word keyword | number => simp [Mode.accept?] at ha
  | fraction => rfl
  | operator node =>
    have hterm : lx.operators.isTerminal node = false := by simpa [Mode.accept?] using ha
    simp only [close, State.finish, State.operatorToken, hterm]
    rfl

/-! ## From any place to the end -/

/-- Read a text and meet its end. -/
def scan (lx : Lexicon) (p : Progress) (cs : List Char) : Except LexError (List Token) :=
  (p.readAll lx cs).bind (close lx)

theorem scan_nil : p.scan lx [] = p.close lx := rfl

theorem scan_cons : p.scan lx (c :: cs) = (p.read lx c).bind fun q => q.scan lx cs := by
  rw [scan, readAll_cons]
  cases p.read lx c <;> rfl

/-- A lexeme that the end of the input may complete is complete. -/
theorem scan_nil_closed (hm : p.state.mode ≠ .gap)
    (ha : p.state.mode.accept? lx p.state.kind = some kind) :
    p.scan lx [] = (p.closed kind).scan lx [] := by
  have hgap : (p.closed kind).state.mode = .gap := rfl
  rw [scan_nil, scan_nil, close_within hm ha, close_gap hgap]

theorem scan_congr (h : p.read lx c = q.read lx c) :
    p.scan lx (c :: cs) = q.scan lx (c :: cs) := by
  rw [scan_cons, scan_cons, h]

/-! ## Where a reading fails -/

theorem position_of_read (h : p.read lx c = .ok q) : q.position = p.position.advance c := by
  unfold read at h
  simp only at h
  split at h
  · rw [← Except.ok.inj h]
  · cases h

theorem position_of_readAll (h : p.readAll lx cs = .ok q) :
    q.position = p.position.after cs := by
  induction cs generalizing p with
  | nil =>
    obtain rfl : p = q := by simpa using h
    rfl
  | cons c cs ih =>
    rw [readAll_cons] at h
    cases hr : p.read lx c with
    | error e => simp [hr, Except.bind] at h
    | ok r =>
      rw [hr] at h
      rw [ih h, position_of_read hr, Position.after_cons]

/-- A reading that fails does so at one character, after all before it were read. -/
theorem readAll_eq_error_iff :
    p.readAll lx cs = .error e ↔
      ∃ as c bs q, cs = as ++ c :: bs ∧ p.readAll lx as = .ok q ∧ q.read lx c = .error e := by
  constructor
  · intro h
    induction cs generalizing p with
    | nil => simp at h
    | cons c cs ih =>
      rw [readAll_cons] at h
      cases hr : p.read lx c with
      | error e' =>
        obtain rfl : e' = e := by simpa [hr, Except.bind] using h
        exact ⟨[], c, cs, p, rfl, rfl, hr⟩
      | ok r =>
        rw [hr] at h
        obtain ⟨as, d, bs, q, rfl, has, hd⟩ := ih h
        exact ⟨c :: as, d, bs, q, rfl, by rw [readAll_cons, hr]; exact has, hd⟩
  · rintro ⟨as, c, bs, q, rfl, has, hc⟩
    rw [readAll_append, has, Except.bind, readAll_cons, hc]
    rfl

end Progress

/-- A scan fails at a character that cannot be read, or else at the end of the input. -/
theorem tokenize_eq_error_iff {lx : Lexicon} {text : String} {e : LexError} :
    lx.tokenize text = .error e ↔
      Progress.initial.readAll lx text.toList = .error e ∨
        ∃ p, Progress.initial.readAll lx text.toList = .ok p ∧ p.close lx = .error e := by
  rw [tokenize_eq]
  cases hread : Progress.initial.readAll lx text.toList with
  | error e' => simp [Except.bind]
  | ok p => simp [Except.bind]

end Scan

end Lexis
