import Lexis.Proofs.Layout
import Lexis.Proofs.Scan.Reading

/-!
  Lexis.Proofs.Scan.Invariant

  The scan and the grammar side by side. `Between` and `Inside` say where a reading stands in the
  layout of what it has read: after a blank or a complete lexeme, or in the middle of a lexeme that
  the layout before it admits. Each of the four things that a character can do keeps one of the
  two, so every text that can be read has a layout up to the lexeme at hand (`stands_of_readAll`),
  and every layout can be read (`exists_settled`).

  Main statement: `tokenize_eq_ok_iff`, a scan succeeds with exactly the tokens of a valid layout.
-/

namespace Lexis

namespace Scan

variable {lx : Lexicon} {v : Vocabulary} {d : Layout} {p q : Progress} {c : Char} {m m' : Mode}
  {k : NumberKind} {kind : TokenKind} {pre cs : List Char}

/-- A layout has been read to its end, and no lexeme is at hand. -/
structure Between (v : Vocabulary) (d : Layout) (p : Progress) : Prop where
  valid : d.Valid v
  mode : p.state.mode = .gap
  kind : p.state.kind = .int
  lexeme : p.state.lexeme = d.lastValue
  position : p.position = Position.start.after d.chars
  tokens : p.tokens.toList = d.tokens

/-- A layout has been read to its end, and after it a part of a lexeme that it admits. -/
structure Inside (lx : Lexicon) (v : Vocabulary) (d : Layout) (p : Progress) : Prop where
  valid : d.Valid v
  within : Within lx p.state.mode p.state.kind p.state.lexeme.toList
  admits : ∀ c, p.state.lexeme.toList.head? = some c →
    d.Admits v (p.state.mode.firstClass = .operator) c
  start : ∃ c, p.state.start = Cursor.span ⟨[c], Position.start.after d.chars⟩
  position : p.position = Position.start.after (d.chars ++ p.state.lexeme.toList)
  tokens : p.tokens.toList = d.tokens

theorem between_initial (v : Vocabulary) : Between v ⟨[], ""⟩ Progress.initial :=
  ⟨Layout.valid_empty v, rfl, rfl, rfl, rfl, rfl⟩

/-! ## What a character keeps -/

theorem Between.skip (h : Between v d p) (hc : Text.isBlank c = true) :
    Between v (d.blank c) (p.skip c) where
  valid := h.valid.blank hc
  mode := h.mode
  kind := h.kind
  lexeme := h.lexeme
  position := by rw [Layout.chars_blank, Position.after_concat, ← h.position]; rfl
  tokens := h.tokens

theorem Between.begun (h : Between v d p) (hm : Mode.begin? lx c = some m)
    (ha : d.Admits v (m.firstClass = .operator) c) : Inside lx v d (p.begun c m) where
  valid := h.valid
  within := by simpa [Progress.begun] using within_of_begin? hm
  admits := by
    intro b hb
    obtain rfl : c = b := by simpa [Progress.begun] using hb
    exact ha
  start := ⟨c, by simp [Progress.begun, h.position]⟩
  position := by simp [Progress.begun, Position.after_concat, h.position]
  tokens := h.tokens

theorem Inside.extended (h : Inside lx v d p)
    (hn : p.state.mode.next? lx p.state.kind c = some (m, k)) :
    Inside lx v d (p.extended c m k) where
  valid := h.valid
  within := by simpa [Progress.extended] using h.within.next? hn
  admits := by
    intro b hb
    obtain ⟨a, as, has⟩ := List.exists_cons_of_ne_nil h.within.ne_nil
    have hhead : p.state.lexeme.toList.head? = some b := by
      simpa [Progress.extended, has] using hb
    simpa only [Progress.extended, next?_firstClass hn] using h.admits b hhead
  start := h.start
  position := by
    simp [Progress.extended, Position.after_concat, h.position, ← List.append_assoc]
  tokens := h.tokens

/-- A lexeme that ends becomes the last one of the layout. -/
theorem Inside.closed (hr : lx.Represents v) (h : Inside lx v d p)
    (ha : p.state.mode.accept? lx p.state.kind = some kind) :
    Between v (d.push p.state.lexeme kind) (p.closed kind) where
  valid := by
    refine h.valid.push (isLexeme_of_accept? hr h.within ha) fun b hb => ?_
    have hadmits := h.admits b hb
    rwa [← accept?_firstClass ha, TokenKind.firstClass_eq_operator_iff] at hadmits
  mode := rfl
  kind := rfl
  lexeme := by simp [Progress.closed]
  position := by simpa [Progress.closed] using h.position
  tokens := by
    obtain ⟨b, hb⟩ := h.start
    simp [Progress.closed, Layout.tokens_push, h.tokens, State.token, hb, Cursor.span,
      Span.withStop, h.position]
    omega

/-! ## Lexemes that touch -/

theorem begin?_firstClass_cases (h : Mode.begin? lx c = some m) :
    m.firstClass = .letter ∨ m.firstClass = .digit ∨ m.firstClass = .operator := by
  have hw := within_of_begin? h
  cases m with
  | gap => exact absurd rfl hw.mode_ne_gap
  | word keyword => exact Or.inl rfl
  | number | fraction => exact Or.inr (Or.inl rfl)
  | operator node => exact Or.inr (Or.inr rfl)

/-- The machine ends a lexeme before the first character of another exactly where the grammar lets
    the two touch. -/
theorem handover_iff_admits (hr : lx.Represents v) {x : Piece}
    (hw : Within lx m k x.value.toList) (ha : m.accept? lx k = some x.kind)
    (hb : Mode.begin? lx c = some m') :
    m.next? lx k c = none ∧ m.Yields (lx.classify c) ↔
      x.Admits v (m'.firstClass = .operator) c := by
  have hcls : lx.classify c = m'.firstClass := begin?_firstClass hb
  have hkind : x.kind = .operator ↔ m.firstClass = .operator := by
    rw [← TokenKind.firstClass_eq_operator_iff, accept?_firstClass ha]
  have hcases := begin?_firstClass_cases hb
  rw [Piece.Admits, hkind]
  generalize x.value.toList = cs at hw
  generalize m'.firstClass = cls at hcls hcases
  cases hw with
  | word hrun =>
    rcases hcases with rfl | rfl | rfl <;> simp [Mode.next?, Mode.Yields, Mode.firstClass, hcls]
  | int hrun | float hrun hrun' =>
    rcases hcases with rfl | rfl | rfl <;> simp [Mode.next?, Mode.Yields, Mode.firstClass, hcls]
  | point hrun => simp [Mode.accept?] at ha
  | @operator _ node hne hwalk =>
    rcases hcases with rfl | rfl | rfl
    · simp [Mode.next?, Mode.Yields, Mode.firstClass, hcls]
    · simp [Mode.next?, Mode.Yields, Mode.firstClass, hcls]
    · -- Only two operators can run together, and then the tree decides.
      have hstep : lx.operators.step? node c = none ↔
          ¬∃ o ∈ v.operators, cs ++ [c] <+: o.toList := by
        rw [← hr.operators.step?_isSome_iff hwalk c]
        simp
      simp [Mode.next?, Mode.Yields, Mode.firstClass, hcls, hstep]

/-! ## Every reading has a layout -/

/-- What has been read is a layout, or a layout and a part of a lexeme. -/
inductive Stands (lx : Lexicon) (v : Vocabulary) (pre : List Char) (p : Progress) : Prop where
  | between {d : Layout} : Between v d p → d.chars = pre → (d.trail = "" → d.pieces = []) →
      Stands lx v pre p
  | inside {d : Layout} : Inside lx v d p → d.chars ++ p.state.lexeme.toList = pre →
      Stands lx v pre p

/-- One character between tokens. -/
theorem Between.read (h : Between v d p) (hread : p.read lx c = .ok q)
    (ha : ∀ m, Mode.begin? lx c = some m → d.Admits v (m.firstClass = .operator) c) :
    Stands lx v (d.chars ++ [c]) q := by
  rcases Progress.read_gap_cases lx c h.mode h.kind with ⟨hc, hok⟩ | ⟨m, hm, hok⟩ | herr
  · obtain rfl : p.skip c = q := Except.ok.inj (hok.symm.trans hread)
    refine .between (h.skip hc) (by simp) fun htrail => ?_
    simp [Layout.blank] at htrail
  · obtain rfl : p.begun c m = q := Except.ok.inj (hok.symm.trans hread)
    exact .inside (h.begun hm (ha m hm)) (by simp [Progress.begun])
  · simp [herr] at hread

/-- One character keeps the correspondence. -/
theorem Stands.read (hr : lx.Represents v) (h : Stands lx v pre p) (hread : p.read lx c = .ok q) :
    Stands lx v (pre ++ [c]) q := by
  cases h with
  | @between d hb hpre hfresh =>
    subst hpre
    -- The last character was a blank, or there was none: whatever comes next touches nothing.
    refine hb.read hread fun m _ htrail x hx => ?_
    simp [hfresh htrail] at hx
  | @inside d hi hpre =>
    subst hpre
    -- A lexeme that ends here is pushed, and the character is read as after a complete layout.
    rcases Progress.read_within_cases hi.within c with
      ⟨m, k, hn, hok⟩ | ⟨kind, hacc, hn, hy, hclosed⟩ | herr
    · obtain rfl : p.extended c m k = q := Except.ok.inj (hok.symm.trans hread)
      exact .inside (hi.extended hn) (by simp [Progress.extended])
    · rw [← Layout.chars_push d p.state.lexeme kind]
      refine (hi.closed hr hacc).read (hclosed ▸ hread) fun m hm _ x hx => ?_
      obtain rfl : ⟨d.trail, p.state.lexeme, kind⟩ = x := by simpa [Layout.push] using hx
      exact (handover_iff_admits hr hi.within hacc hm).mp ⟨hn, hy⟩
    · simp [herr] at hread

/-- Every text that can be read has a layout up to the lexeme at hand. -/
theorem stands_of_readAll (hr : lx.Represents v) (hread : Progress.initial.readAll lx pre = .ok p) :
    Stands lx v pre p := by
  -- Along the text from its end, because `Stands` speaks of all that has been read.
  induction pre using List.reverseRecOn generalizing p with
  | nil =>
    obtain rfl : Progress.initial = p := by simpa using hread
    exact .between (between_initial v) rfl fun _ => rfl
  | append_singleton pre c ih =>
    rw [Progress.readAll_append] at hread
    cases hq : Progress.initial.readAll lx pre with
    | error e => simp [hq, Except.bind] at hread
    | ok q =>
      rw [hq] at hread
      exact (ih hq).read hr (by simpa [Except.bind, Progress.readAll_singleton] using hread)

/-! ## Every layout can be read -/

/-- A layout has been read to its end; its last lexeme may still be at hand. -/
inductive Settles (lx : Lexicon) (v : Vocabulary) (d : Layout) (p : Progress) : Prop where
  | between : Between v d p → Settles lx v d p
  | inside {d₀ : Layout} {kind : TokenKind} : Inside lx v d₀ p →
      p.state.mode.accept? lx p.state.kind = some kind → d = d₀.push p.state.lexeme kind →
      Settles lx v d p

/-- The end of the input after a layout completes its tokens. -/
theorem Settles.close (hr : lx.Represents v) (h : Settles lx v d p) :
    p.close lx = .ok d.tokens := by
  cases h with
  | between hb => rw [Progress.close_gap hb.mode, hb.tokens]
  | inside hi hacc hd =>
    rw [Progress.close_within hi.within.mode_ne_gap hacc, (hi.closed hr hacc).tokens, hd]

theorem next?_of_whitespace (hc : lx.classify c = .whitespace) : m.next? lx k c = none := by
  cases m <;> simp [Mode.next?, hc]

/-- What can come after a layout is read as between tokens. -/
theorem Settles.read_eq (hr : lx.Represents v) (h : Settles lx v d p)
    (hc : Text.isBlank c = true ∨
      ∃ m, Mode.begin? lx c = some m ∧ d.Admits v (m.firstClass = .operator) c) :
    ∃ p', Between v d p' ∧ p.read lx c = p'.read lx c := by
  cases h with
  | between hb => exact ⟨p, hb, rfl⟩
  | @inside d₀ kind hi hacc hd =>
    subst hd
    refine ⟨p.closed kind, hi.closed hr hacc, ?_⟩
    rcases hc with hc | ⟨m, hm, ha⟩
    · have hcls : lx.classify c = .whitespace := Lexicon.classify_eq_whitespace_iff.mpr hc
      exact Progress.read_handover hi.within hacc (next?_of_whitespace hcls) (Or.inl hcls)
    · have hx := ha rfl ⟨d₀.trail, p.state.lexeme, kind⟩ (by simp [Layout.push])
      obtain ⟨hn, hy⟩ := (handover_iff_admits hr hi.within hacc hm).mpr hx
      exact Progress.read_handover hi.within hacc hn hy

theorem Between.readAll_blanks (lx : Lexicon) {ws : List Char} (h : Between v d p)
    (hws : ∀ c ∈ ws, Text.isBlank c = true) :
    ∃ q, p.readAll lx ws = .ok q ∧
      Between v ⟨d.pieces, String.ofList (d.trail.toList ++ ws)⟩ q := by
  induction ws generalizing d p with
  | nil => exact ⟨p, rfl, by simpa using h⟩
  | cons c ws ih =>
    have hc : Text.isBlank c = true := hws c (by simp)
    obtain ⟨q, hq, hb⟩ := ih (h.skip hc) fun b hb => hws b (by simp [hb])
    refine ⟨q, ?_, by simpa [Layout.blank] using hb⟩
    rw [Progress.readAll_cons, Progress.read_blank h.mode hc]
    exact hq

/-- White space after a layout completes its last lexeme. -/
theorem Settles.readAll_separator (hr : lx.Represents v) {ws : List Char} (h : Settles lx v d p)
    (hne : ws ≠ []) (hws : ∀ c ∈ ws, Text.isBlank c = true) :
    ∃ q, p.readAll lx ws = .ok q ∧
      Between v ⟨d.pieces, String.ofList (d.trail.toList ++ ws)⟩ q := by
  obtain ⟨c, ws, rfl⟩ := List.exists_cons_of_ne_nil hne
  obtain ⟨p', hb, hread⟩ := h.read_eq hr (Or.inl (hws c (by simp)))
  obtain ⟨q, hq, hbq⟩ := hb.readAll_blanks lx hws
  refine ⟨q, ?_, hbq⟩
  rw [Progress.readAll_cons, hread, ← Progress.readAll_cons]
  exact hq

theorem Settles.readAll_blanks (hr : lx.Represents v) {ws : List Char} (h : Settles lx v d p)
    (hws : ∀ c ∈ ws, Text.isBlank c = true) :
    ∃ q, p.readAll lx ws = .ok q ∧
      Settles lx v ⟨d.pieces, String.ofList (d.trail.toList ++ ws)⟩ q := by
  by_cases hne : ws = []
  · subst hne
    exact ⟨p, rfl, by simpa using h⟩
  · obtain ⟨q, hq, hb⟩ := h.readAll_separator hr hne hws
    exact ⟨q, hq, .between hb⟩

/-- The rest of a lexeme that has been begun. -/
theorem Inside.readAll (hr : lx.Represents v) {s : String} {rest : List Char}
    (h : Inside lx v d p) (hs : v.IsLexeme s kind)
    (hrest : s.toList = p.state.lexeme.toList ++ rest) :
    ∃ q, p.readAll lx rest = .ok q ∧ Inside lx v d q ∧ q.state.lexeme = s := by
  -- Each further character of `s` goes on with the lexeme, and the rest gets shorter.
  induction rest generalizing p with
  | nil => exact ⟨p, rfl, h, String.toList_inj.mp (by simpa using hrest.symm)⟩
  | cons c rest ih =>
    obtain ⟨⟨m, k⟩, hn⟩ :=
      Option.isSome_iff_exists.mp (next?_isSome_of_isLexeme hr h.within hs hrest)
    obtain ⟨q, hq, hin, hlex⟩ := ih (h.extended hn) (by simpa [Progress.extended] using hrest)
    refine ⟨q, ?_, hin, hlex⟩
    rw [Progress.readAll_cons, Progress.read_next hn]
    exact hq

/-- A lexeme after a layout that admits it. -/
theorem Settles.readAll_lexeme (hr : lx.Represents v) {s : String} (h : Settles lx v d p)
    (hs : v.IsLexeme s kind)
    (ha : ∀ c, s.toList.head? = some c → d.Admits v (kind = .operator) c) :
    ∃ q, p.readAll lx s.toList = .ok q ∧ Settles lx v (d.push s kind) q := by
  obtain ⟨c, rest, hcs⟩ := List.exists_cons_of_ne_nil (hs.toList_ne_nil hr)
  obtain ⟨m, hm⟩ := Option.isSome_iff_exists.mp (begin?_isSome_of_isLexeme hr hs hcs)
  -- The grammar asks for the kind of the lexeme, the machine knows the class it began with.
  have hop : kind = .operator ↔ m.firstClass = .operator := by
    rw [← TokenKind.firstClass_eq_operator_iff, ← hs.classify_head hr (d := c) (by simp [hcs]),
      begin?_firstClass hm]
  have hadm : d.Admits v (m.firstClass = .operator) c := by
    simpa only [hop] using ha c (by simp [hcs])
  obtain ⟨p', hb, hread⟩ := h.read_eq hr (Or.inr ⟨m, hm, hadm⟩)
  rw [Progress.read_begin hb.mode hb.kind hm] at hread
  have hrest : s.toList = (p'.begun c m).state.lexeme.toList ++ rest := by
    simp [Progress.begun, hcs]
  obtain ⟨q, hq, hin, rfl⟩ := (hb.begun hm hadm).readAll hr hs hrest
  refine ⟨q, ?_, .inside hin (accept?_of_isLexeme hr hin.within hs) rfl⟩
  rw [hcs, Progress.readAll_cons, hread]
  exact hq

/-- Every valid layout can be read to its end. -/
theorem exists_settled (hr : lx.Represents v) (hd : d.Valid v) :
    ∃ p, Progress.initial.readAll lx d.chars = .ok p ∧ Settles lx v d p := by
  obtain ⟨pieces, trail⟩ := d
  -- Piece by piece: what stands before the last lexeme is a layout that ends with its gap.
  induction pieces using List.reverseRecOn generalizing trail with
  | nil =>
    obtain ⟨q, hq, hs⟩ := Settles.readAll_blanks hr (.between (between_initial v)) hd.trail
    exact ⟨q, by simpa [Layout.chars] using hq, by simpa using hs⟩
  | append_singleton xs x ih =>
    obtain ⟨hxs, hadm⟩ := hd.of_concat
    obtain ⟨p₁, hread₁, hs₁⟩ := ih x.gap hxs
    obtain ⟨p₂, hread₂, hs₂⟩ := hs₁.readAll_lexeme hr (hd.lexemes x (by simp)) hadm
    obtain ⟨p₃, hread₃, hs₃⟩ := hs₂.readAll_blanks hr hd.trail
    have hchars : Layout.chars ⟨xs ++ [x], trail⟩ =
        Layout.chars ⟨xs, x.gap⟩ ++ (x.value.toList ++ trail.toList) := by
      simp [Layout.chars, Piece.chars]
    refine ⟨p₃, ?_, by simpa [Layout.push] using hs₃⟩
    rw [hchars, Progress.readAll_append, hread₁, Except.bind, Progress.readAll_append, hread₂]
    exact hread₃

/-! ## The tokens of a text -/

theorem Settles.valid (hr : lx.Represents v) (h : Settles lx v d p) : d.Valid v := by
  cases h with
  | between hb => exact hb.valid
  | inside hi hacc hd => exact hd ▸ (hi.closed hr hacc).valid

/-- Where the end of the input is accepted, what has been read is a layout. -/
theorem Stands.settles {ts : List Token} (hr : lx.Represents v) (h : Stands lx v pre p)
    (hclose : p.close lx = .ok ts) : ∃ d, Settles lx v d p ∧ d.chars = pre ∧ d.tokens = ts := by
  have hsettled : ∃ d, Settles lx v d p ∧ d.chars = pre := by
    cases h with
    | @between d hb hpre _ => exact ⟨d, .between hb, hpre⟩
    | @inside d hi hpre =>
      cases hacc : p.state.mode.accept? lx p.state.kind with
      | none =>
        simp [Progress.close_refused hi.within.mode_ne_gap hacc] at hclose
      | some kind => exact ⟨d.push p.state.lexeme kind, .inside hi hacc rfl, by simpa using hpre⟩
  obtain ⟨d, hs, hpre⟩ := hsettled
  exact ⟨d, hs, hpre, Except.ok.inj ((hs.close hr).symm.trans hclose)⟩

/-- Where the end of the input is not accepted, a lexeme is at hand that may not end. -/
theorem Stands.error_of_close {e : LexError} (h : Stands lx v pre p)
    (hclose : p.close lx = .error e) :
    Within lx p.state.mode p.state.kind p.state.lexeme.toList ∧
      p.state.mode.accept? lx p.state.kind = none ∧ e = p.refusedAtEnd := by
  cases h with
  | between hb _ _ => simp [Progress.close_gap hb.mode] at hclose
  | inside hi _ =>
    cases hacc : p.state.mode.accept? lx p.state.kind with
    | some kind => simp [Progress.close_within hi.within.mode_ne_gap hacc] at hclose
    | none =>
      rw [Progress.close_refused hi.within.mode_ne_gap hacc] at hclose
      exact ⟨hi.within, rfl, (Except.error.inj hclose).symm⟩

/-- A character is refused in the state at hand, or in the one where the lexeme at hand has just
    become a token. -/
theorem Stands.error_of_read {e : LexError} (h : Stands lx v pre p)
    (hread : p.read lx c = .error e) :
    e = p.refusedAt lx c ∨ ∃ kind, p.state.mode.accept? lx p.state.kind = some kind ∧
      e = (p.closed kind).refusedAt lx c := by
  -- Both ways end at a state between tokens, or at a refusal inside the lexeme.
  cases h with
  | between hb _ _ => exact Or.inl (Progress.read_gap_error hb.mode hb.kind hread).2.2
  | inside hi _ =>
    rcases Progress.read_within_cases hi.within c with
      ⟨m, k, -, hok⟩ | ⟨kind, hacc, -, -, hclosed⟩ | hrefused
    · simp [hok] at hread
    · exact Or.inr ⟨kind, hacc, (Progress.read_gap_error rfl rfl (hclosed ▸ hread)).2.2⟩
    · exact Or.inl (Except.error.inj (hread.symm.trans hrefused))

/-- An error at a character names the character, its place and the lexeme most recently begun. -/
theorem Stands.exists_fault_of_read {e : LexError} (h : Stands lx v pre p)
    (hread : p.read lx c = .error e) :
    ∃ fault, e = ⟨fault, .char c, p.state.lexeme, Cursor.span ⟨[c], p.position⟩⟩ := by
  rcases h.error_of_read hread with rfl | ⟨kind, -, rfl⟩
  · exact ⟨_, rfl⟩
  · exact ⟨_, rfl⟩

/-- A scan succeeds with exactly the tokens of a valid layout of the text. -/
theorem tokenize_eq_ok_iff (hr : lx.Represents v) (text : String) (ts : List Token) :
    lx.tokenize text = .ok ts ↔ ∃ d : Layout, d.Valid v ∧ d.text = text ∧ d.tokens = ts := by
  rw [tokenize_eq]
  constructor
  · intro h
    cases hp : Progress.initial.readAll lx text.toList with
    | error e => simp [hp, Except.bind] at h
    | ok p =>
      rw [hp] at h
      obtain ⟨d, hs, hchars, hts⟩ := (stands_of_readAll hr hp).settles hr h
      exact ⟨d, hs.valid hr, String.toList_inj.mp (by simpa using hchars), hts⟩
  · rintro ⟨d, hd, rfl, rfl⟩
    obtain ⟨p, hp, hs⟩ := exists_settled hr hd
    rw [Layout.toList_text, hp]
    exact hs.close hr

end Scan

end Lexis
