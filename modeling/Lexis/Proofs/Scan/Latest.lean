import Lexis.Proofs.Scan.Resume
import Lexis.Proofs.Tiling

/-!
  Lexis.Proofs.Scan.Latest

  The lexeme most recently begun, seen from the tokens. A text can go on in many ways, but where the
  lexemes of the part that has been read begin is settled: whatever comes next, the tokens that begin
  in that part are those of the layout so far and, if a lexeme is at hand, one more that begins with
  it (`Between.exists_tokens`, `Inside.exists_tokens`). The lexeme that the machine remembers is
  therefore what stands of the last of them (`lexeme_eq_latestLexeme`).
-/

namespace Lexis

/-- The token that began last before a byte offset. -/
def latestToken? (ts : List Token) (offset : Nat) : Option Token :=
  (ts.filter fun t => t.span.start < offset).getLast?

/-- The lexeme most recently begun in `pre`, where `ts` are the tokens of a text that goes on from
    `pre`: as much as `pre` holds of the last token that begins in it. -/
def latestLexeme (pre : String) (ts : List Token) : String :=
  match latestToken? ts pre.utf8ByteSize with
  | none => ""
  | some t =>
    String.ofList ((Text.slice? pre.toList t.span.start (min t.span.stop pre.utf8ByteSize)).getD [])

theorem latestToken?_eq_none_iff {ts : List Token} {offset : Nat} :
    latestToken? ts offset = none ↔ ∀ t ∈ ts, offset ≤ t.span.start := by
  simp [latestToken?]

/-- Tokens that begin later do not count. -/
theorem latestToken?_append {ts us : List Token} {offset : Nat}
    (hts : ∀ t ∈ ts, t.span.start < offset) (hus : ∀ u ∈ us, offset ≤ u.span.start) :
    latestToken? (ts ++ us) offset = ts.getLast? := by
  have hall : ts.filter (fun t => decide (t.span.start < offset)) = ts :=
    List.filter_eq_self.mpr fun t ht => by simpa using hts t ht
  have hnone : us.filter (fun t => decide (t.span.start < offset)) = [] :=
    List.filter_eq_nil_iff.mpr fun u hu => by simpa using hus u hu
  rw [latestToken?, List.filter_append, hall, hnone, List.append_nil]

namespace Layout

variable {lx : Lexicon} {v : Vocabulary} {d : Layout} {t : Token}

/-- Every token of a layout begins inside it, and is cut out of it by its span. -/
theorem place_of_mem_tokens (hr : lx.Represents v) (hd : d.Valid v) (ht : t ∈ d.tokens) :
    t.value ≠ "" ∧ t.span.start < Text.byteLength d.chars ∧
      Text.slice? d.chars t.span.start (min t.span.stop (Text.byteLength d.chars)) =
        some t.value.toList := by
  obtain ⟨x, hx, pre, post, hchars, rfl⟩ := exists_of_mem_tokensFrom ht
  have htext : d.chars = pre ++ x.value.toList ++ (post ++ d.trail.toList) := by
    simp [chars, hchars]
  have hne := (hd.lexemes x hx).toList_ne_nil hr
  have hpos := Text.byteLength_pos hne
  have hoffset : (Position.start.after pre).offset = Text.byteLength pre := by
    simp [Position.start]
  have hsize : Text.byteLength d.chars = Text.byteLength pre + Text.byteLength x.value.toList +
      Text.byteLength (post ++ d.trail.toList) := by
    rw [htext, Text.byteLength_append, Text.byteLength_append]
  refine ⟨by simpa using hne, ?_, ?_⟩
  · simp only [hoffset, hsize]
    omega
  · simp only [hoffset]
    rw [Nat.min_eq_left (by omega), htext, Source.slice?_boundary]

end Layout

namespace Scan

variable {lx : Lexicon} {v : Vocabulary} {d : Layout} {p : Progress} {ts : List Token}
  {pre es : List Char}

/-! ## What comes next begins later -/

theorem Between.exists_tokens (hr : lx.Represents v) (h : Between v d p)
    (hts : p.scan lx es = .ok ts) :
    ∃ us, ts = d.tokens ++ us ∧ ∀ u ∈ us, Text.byteLength d.chars ≤ u.span.start := by
  have hresume := tokenize_resume hr h.position h.mode h.kind (String.ofList es)
  rw [String.toList_ofList] at hresume
  rw [Progress.scan, hresume] at hts
  cases hes : lx.tokenize (String.ofList es) with
  | error e => simp [hes, shiftResult] at hts
  | ok us =>
    refine ⟨us.map (Token.shift d.chars), ?_, fun u hu => ?_⟩
    · rw [← h.tokens]
      simpa [hes, shiftResult] using hts.symm
    · obtain ⟨w, -, rfl⟩ := List.mem_map.mp hu
      exact Nat.le_add_left _ _

/-- A lexeme at hand becomes a token that begins with it, whatever comes next. -/
theorem Inside.exists_tokens (hr : lx.Represents v) (h : Inside lx v d p)
    (hts : p.scan lx es = .ok ts) :
    ∃ value kind us, p.state.lexeme.toList <+: value.toList ∧
      ts = (d.push value kind).tokens ++ us ∧
      ∀ u ∈ us, Text.byteLength (d.push value kind).chars ≤ u.span.start := by
  -- Once the lexeme has ended, the machine stands between tokens.
  have hclosed : ∀ {p : Progress} {kind es}, Inside lx v d p →
      p.state.mode.accept? lx p.state.kind = some kind → (p.closed kind).scan lx es = .ok ts →
      ∃ us, ts = (d.push p.state.lexeme kind).tokens ++ us ∧
        ∀ u ∈ us, Text.byteLength (d.push p.state.lexeme kind).chars ≤ u.span.start :=
    fun hi ha hts => (hi.closed hr ha).exists_tokens hr hts
  induction es generalizing p with
  | nil =>
    cases ha : p.state.mode.accept? lx p.state.kind with
    | none =>
      simp [Progress.scan_nil, Progress.close_refused h.within.mode_ne_gap ha] at hts
    | some kind =>
      rw [Progress.scan_nil_closed h.within.mode_ne_gap ha] at hts
      obtain ⟨us, hus⟩ := hclosed h ha hts
      exact ⟨p.state.lexeme, kind, us, List.prefix_refl _, hus⟩
  | cons c es ih =>
    rcases Progress.read_within_cases h.within c with
      ⟨m, k, hn, hok⟩ | ⟨kind, ha, -, -, hread⟩ | herr
    · rw [Progress.scan_cons, hok] at hts
      obtain ⟨value, kind, us, hpre, hus⟩ := ih (h.extended hn) hts
      refine ⟨value, kind, us, List.IsPrefix.trans ?_ hpre, hus⟩
      simp [Progress.extended]
    · rw [Progress.scan_congr hread] at hts
      obtain ⟨us, hus⟩ := hclosed h ha hts
      exact ⟨p.state.lexeme, kind, us, List.prefix_refl _, hus⟩
    · simp [Progress.scan_cons, herr, Except.bind] at hts

/-! ## The lexeme that the machine remembers -/

/-- Either no token begins in what has been read and nothing is remembered, or what is remembered
    is what stands there of the last token that begins in it. -/
theorem Stands.latest (hr : lx.Represents v) (h : Stands lx v pre p)
    (hts : p.scan lx es = .ok ts) :
    (latestToken? ts (Text.byteLength pre) = none ∧ p.state.lexeme = "") ∨
      ∃ t, latestToken? ts (Text.byteLength pre) = some t ∧ p.state.lexeme ≠ "" ∧
        Text.slice? pre t.span.start (min t.span.stop (Text.byteLength pre)) =
          some p.state.lexeme.toList := by
  cases h with
  | @between d hb hpre _ =>
    subst hpre
    obtain ⟨us, rfl, hus⟩ := hb.exists_tokens hr hts
    have hplace := fun t (ht : t ∈ d.tokens) => Layout.place_of_mem_tokens hr hb.valid ht
    rw [latestToken?_append (fun t ht => (hplace t ht).2.1) hus, hb.lexeme, d.lastValue_eq]
    cases hlast : d.tokens.getLast? with
    | none => exact Or.inl ⟨rfl, rfl⟩
    | some t =>
      obtain ⟨hne, -, hslice⟩ := hplace t (List.mem_of_getLast? hlast)
      exact Or.inr ⟨t, rfl, hne, hslice⟩
  | @inside d hi hpre =>
    subst hpre
    obtain ⟨value, kind, us, ⟨tail, htail⟩, rfl, hus⟩ := hi.exists_tokens hr hts
    have hne : p.state.lexeme ≠ "" := by simpa using hi.within.ne_nil
    have hpos := Text.byteLength_pos hi.within.ne_nil
    -- The lexeme begins where the layout ends, and reaches at least as far as what has been read.
    have hoffset : (Position.start.after d.chars).offset = Text.byteLength d.chars := by
      simp [Position.start]
    have hsize : Text.byteLength value.toList =
        Text.byteLength p.state.lexeme.toList + Text.byteLength tail := by
      rw [← htail, Text.byteLength_append]
    rw [Layout.tokens_push, Text.byteLength_append]
    simp only [hoffset]
    rw [latestToken?_append, List.getLast?_concat]
    · refine Or.inr ⟨_, rfl, hne, ?_⟩
      have hslice := Source.slice?_boundary d.chars p.state.lexeme.toList []
      rw [List.append_nil] at hslice
      rw [Nat.min_eq_right (by simp only [hsize]; omega), hslice]
    · intro t ht
      rcases List.mem_append.mp ht with ht | ht
      · have hlt := (Layout.place_of_mem_tokens hr hi.valid ht).2.1
        omega
      · rw [List.mem_singleton.mp ht]
        simp only
        omega
    · intro u hu
      have hle := hus u hu
      rw [Layout.chars_push, Text.byteLength_append, hsize] at hle
      omega

/-- Whatever a text goes on with, the lexeme that the machine remembers is the one most recently
    begun in what has been read, and it is empty exactly when no token begins there. -/
theorem lexeme_eq_latestLexeme (hr : lx.Represents v) {pre s : String}
    (hread : Progress.initial.readAll lx pre.toList = .ok p)
    (hts : lx.tokenize (pre ++ s) = .ok ts) :
    p.state.lexeme = latestLexeme pre ts ∧
      (p.state.lexeme = "" ↔ ∀ t ∈ ts, pre.utf8ByteSize ≤ t.span.start) := by
  have hscan : p.scan lx s.toList = .ok ts := by
    rw [tokenize_eq, String.toList_append, Progress.readAll_append, hread] at hts
    exact hts
  have hlatest := (stands_of_readAll hr hread).latest hr hscan
  rw [Text.byteLength_toList] at hlatest
  rw [← latestToken?_eq_none_iff, latestLexeme]
  rcases hlatest with ⟨hnone, hlex⟩ | ⟨t, ht, hne, hslice⟩
  · simp [hnone, hlex]
  · simp [ht, hne, hslice]

end Scan

end Lexis
