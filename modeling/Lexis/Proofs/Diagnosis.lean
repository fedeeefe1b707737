import Lexis.Proofs.Scan.Latest
import Lexis.Proofs.ViablePrefix

/-!
  Lexis.Proofs.Diagnosis

  Errors say the truth. `LexError.Justified` spells out what each fault asserts about the text before
  the error, the lexeme it names and the input that was found; every error of a scan is justified.
  A character can be refused in the middle of a lexeme, between tokens, or between tokens after it
  has ended the lexeme at hand, and the end of the input in the middle of a lexeme; there is one
  lemma for each of these, by cases on what the machine knows of the lexeme.
-/

namespace Lexis

open Scan

/-- What an error asserts, by its fault. The text before it is `pre`. -/
def LexError.Justified (lx : Lexicon) (v : Vocabulary) (pre : List Char) (e : LexError) : Prop :=
  match e.fault with
  | .unclassifiableCharacter => ∃ c, e.found = .char c ∧ lx.classify c = .unknown
  | .malformedNumber .missingFraction =>
    (∃ whole, IsRun CharClass.isDigit whole ∧ e.context.toList = whole ++ ['.']) ∧
      e.context.toList <:+ pre ∧
      (e.found = .endOfInput ∨ ∃ c, e.found = .char c ∧ CharClass.isDigit c = false)
  | .malformedNumber .secondDecimalPoint =>
    (∃ whole fraction, IsRun CharClass.isDigit whole ∧ IsRun CharClass.isDigit fraction ∧
        e.context.toList = whole ++ '.' :: fraction) ∧
      e.context.toList <:+ pre ∧ e.found = .char '.'
  | .invalidOperator .incomplete =>
    e.context ≠ "" ∧ (∃ o ∈ v.operators, e.context.toList <+: o.toList ∧ e.context ≠ o) ∧
      e.context ∉ v.operators ∧ e.context.toList <:+ pre ∧
      (e.found = .endOfInput ∨ ∃ c, e.found = .char c ∧
        ∀ o ∈ v.operators, ¬e.context.toList ++ [c] <+: o.toList)
  | .invalidOperator .noOperatorStartsWith =>
    ∃ c, e.found = .char c ∧ (∃ o ∈ v.operators, c ∈ o.toList) ∧
      ∀ o ∈ v.operators, o.toList.head? ≠ some c
  | .unexpectedCharacter cls =>
    ∃ c, e.found = .char c ∧ lx.classify c = cls ∧
      -- A letter or a digit touches the number or the word at hand; a point stands between tokens,
      -- or touches a word or what has been read of an operator.
      ((cls = .letter ∧ e.context.toList <:+ pre ∧
          (v.IsLexeme e.context .int ∨ v.IsLexeme e.context .float)) ∨
        (cls = .digit ∧ e.context.toList <:+ pre ∧ IsRun CharClass.isLetter e.context.toList) ∨
        (cls = .dot ∧ ∀ b, pre.getLast? = some b → Text.isBlank b = true) ∨
        (cls = .dot ∧ e.context.toList <:+ pre ∧ (IsRun CharClass.isLetter e.context.toList ∨
          e.context ≠ "" ∧ ∃ o ∈ v.operators, e.context.toList <+: o.toList)))
  | .unexpectedState _ => False

namespace Scan

variable {lx : Lexicon} {v : Vocabulary} {p : Progress} {m : Mode} {k : NumberKind} {c : Char}
  {pre : List Char} {s : String} {span : Span} {e : LexError} {node : NodeId}

/-! ## Inside a lexeme -/

/-- What leads to a node of the operator tree begins an operator. -/
theorem exists_operator_of_walk (hr : lx.Represents v) (hne : s.toList ≠ [])
    (hwalk : lx.operators.walkFrom? Trie.root s.toList = some node) :
    s ≠ "" ∧ ∃ o ∈ v.operators, s.toList <+: o.toList :=
  ⟨by simpa using hne,
    ((hr.operators.reaches s.toList).mp (by simp [hwalk])).resolve_left hne⟩

/-- Where no operator ends, what has been read is a proper beginning of one. -/
theorem incomplete_of_walk (hr : lx.Represents v) (hne : s.toList ≠ [])
    (hwalk : lx.operators.walkFrom? Trie.root s.toList = some node)
    (hterm : lx.operators.isTerminal node = false) :
    s ≠ "" ∧ (∃ o ∈ v.operators, s.toList <+: o.toList ∧ s ≠ o) ∧ s ∉ v.operators := by
  have hmem : s ∉ v.operators := by
    have hiff := hr.operators.isTerminal_iff hwalk
    rw [hterm, String.ofList_toList] at hiff
    simpa using hiff
  obtain ⟨hs, o, ho, hpre⟩ := exists_operator_of_walk hr hne hwalk
  exact ⟨hs, ⟨o, ho, hpre, fun heq => hmem (heq ▸ ho)⟩, hmem⟩

/-- A character that is refused inside a lexeme. -/
theorem justified_of_refused_within (hr : lx.Represents v) (hw : Within lx m k s.toList)
    (hn : m.next? lx k c = none)
    (hno : m.accept? lx k = none ∨ ¬m.Yields (lx.classify c)) (hpre : s.toList <:+ pre) :
    LexError.Justified lx v pre ⟨m.refusal (lx.classify c), .char c, s, span⟩ := by
  generalize hcs : s.toList = cs at hw
  cases hw with
  | word hrun =>
    rw [← hcs] at hrun
    have hy := hno.resolve_left (by simp [Mode.accept?])
    cases hc : lx.classify c with
    | whitespace | operator => simp [Mode.Yields, hc] at hy
    | letter => simp [Mode.next?, hc] at hn
    | digit => exact ⟨c, rfl, hc, Or.inr (Or.inl ⟨rfl, hpre, hrun⟩)⟩
    | dot => exact ⟨c, rfl, hc, Or.inr (Or.inr (Or.inr ⟨rfl, hpre, Or.inl hrun⟩))⟩
    | unknown => exact ⟨c, rfl, hc⟩
  | int hrun =>
    rw [← hcs] at hrun
    have hy := hno.resolve_left (by simp [Mode.accept?])
    cases hc : lx.classify c with
    | whitespace | operator => simp [Mode.Yields, hc] at hy
    | digit | dot => simp [Mode.next?, hc] at hn
    | letter => exact ⟨c, rfl, hc, Or.inl ⟨rfl, hpre, Or.inl hrun⟩⟩
    | unknown => exact ⟨c, rfl, hc⟩
  | float hrun hrun' =>
    have hy := hno.resolve_left (by simp [Mode.accept?])
    cases hc : lx.classify c with
    | whitespace | operator => simp [Mode.Yields, hc] at hy
    | digit => simp [Mode.next?, hc] at hn
    | letter => exact ⟨c, rfl, hc, Or.inl ⟨rfl, hpre, Or.inr ⟨_, _, hrun, hrun', hcs⟩⟩⟩
    | dot =>
      rw [Lexicon.classify_eq_dot_iff.mp hc]
      exact ⟨⟨_, _, hrun, hrun', hcs⟩, hpre, rfl⟩
    | unknown => exact ⟨c, rfl, hc⟩
  | point hrun =>
    -- Whatever its class, the character is no digit.
    have hdigit : CharClass.isDigit c = false := by
      rw [← Bool.not_eq_true, ← (Lexicon.classify_eq_digit_iff : lx.classify c = _ ↔ _)]
      intro hc
      simp [Mode.next?, hc] at hn
    exact ⟨⟨_, hrun, hcs⟩, hpre, Or.inr ⟨c, rfl, hdigit⟩⟩
  | @operator _ node hne hwalk =>
    subst hcs
    have hends := (next?_eq_none_iff_of_operator hr (.operator hne hwalk) rfl).mp hn
    have hincomplete : (Mode.operator node).Yields (lx.classify c) →
        LexError.Justified lx v pre ⟨.invalidOperator .incomplete, .char c, s, span⟩ := by
      intro hy
      have hterm : lx.operators.isTerminal node = false := by
        simpa [Mode.accept?] using hno.resolve_right (not_not.mpr hy)
      obtain ⟨hs, hproper, hmem⟩ := incomplete_of_walk hr hne hwalk hterm
      exact ⟨hs, hproper, hmem, hpre, Or.inr ⟨c, rfl, hends⟩⟩
    cases hc : lx.classify c with
    | whitespace | operator | letter | digit =>
      exact hincomplete (by simp [Mode.Yields, hc, Mode.firstClass])
    | dot => exact ⟨c, rfl, hc, Or.inr (Or.inr (Or.inr
        ⟨rfl, hpre, Or.inr (exists_operator_of_walk hr hne hwalk)⟩))⟩
    | unknown => exact ⟨c, rfl, hc⟩

/-- The end of the input that is refused inside a lexeme. -/
theorem justified_of_refused_end (hr : lx.Represents v) (hw : Within lx m k s.toList)
    (ha : m.accept? lx k = none) (hpre : s.toList <:+ pre) :
    LexError.Justified lx v pre ⟨m.refusal .whitespace, .endOfInput, s, span⟩ := by
  generalize hcs : s.toList = cs at hw
  cases hw with
  | word | int | float => simp [Mode.accept?] at ha
  | point hrun => exact ⟨⟨_, hrun, hcs⟩, hpre, Or.inl rfl⟩
  | operator hne hwalk =>
    subst hcs
    obtain ⟨hs, hproper, hmem⟩ :=
      incomplete_of_walk hr hne hwalk (by simpa [Mode.accept?] using ha)
    exact ⟨hs, hproper, hmem, hpre, Or.inl rfl⟩

/-! ## Between tokens -/

/-- A character that begins nothing. A point can do so only after white space. -/
theorem justified_of_refused_gap (hr : lx.Represents v) (hb : Text.isBlank c ≠ true)
    (hm : Mode.begin? lx c = none)
    (hdot : lx.classify c = .dot → ∀ b, pre.getLast? = some b → Text.isBlank b = true) :
    LexError.Justified lx v pre ⟨Mode.gap.refusal (lx.classify c), .char c, s, span⟩ := by
  cases hc : lx.classify c with
  | whitespace => exact absurd (Lexicon.classify_eq_whitespace_iff.mp hc) hb
  | letter | digit => simp [Mode.begin?, hc] at hm
  | operator =>
    have hstart : lx.operators.step? Trie.root c = none := by
      simpa [Mode.begin?, hc, Trie.start?] using hm
    refine ⟨c, rfl, hr.classify_eq_operator_iff.mp hc, fun o ho hhead => ?_⟩
    -- An operator that begins with the character would be a way on from the root.
    obtain ⟨tail, htail⟩ := List.head?_eq_some_iff.mp hhead
    have hroot : lx.operators.walkFrom? Trie.root [] = some Trie.root := rfl
    have hsome := (hr.operators.step?_isSome_iff hroot c).mpr ⟨o, ho, by simp [htail]⟩
    simp [hstart] at hsome
  | dot => exact ⟨c, rfl, hc, Or.inr (Or.inr (Or.inl ⟨rfl, hdot hc⟩))⟩
  | unknown => exact ⟨c, rfl, hc⟩

/-- Between tokens nothing has been read, or the last character is white space. -/
theorem isBlank_of_getLast? {d : Layout} (hd : d.Valid v)
    (hfresh : d.trail = "" → d.pieces = []) {b : Char} (hb : d.chars.getLast? = some b) :
    Text.isBlank b = true := by
  by_cases htrail : d.trail = ""
  · simp [Layout.chars, hfresh htrail, htrail] at hb
  · have hne : d.trail.toList ≠ [] := by simpa using htrail
    rw [Layout.chars, List.getLast?_append_of_ne_nil _ hne] at hb
    exact hd.trail b (List.mem_of_getLast? hb)

/-! ## Errors -/

/-- Every error at a character is justified. -/
theorem Stands.justified_of_read (hr : lx.Represents v) (h : Stands lx v pre p)
    (hread : p.read lx c = .error e) : e.Justified lx v pre := by
  cases h with
  | @between d hbetween hpre hfresh =>
    obtain ⟨hb, hm, rfl⟩ := Progress.read_gap_error hbetween.mode hbetween.kind hread
    rw [Progress.refusedAt, hbetween.mode]
    refine justified_of_refused_gap hr hb hm fun _ b hlast => ?_
    rw [← hpre] at hlast
    exact isBlank_of_getLast? hbetween.valid hfresh hlast
  | @inside d hi hpre =>
    have hsuffix : p.state.lexeme.toList <:+ pre := ⟨d.chars, hpre⟩
    have hn : p.state.mode.next? lx p.state.kind c = none := by
      cases hn : p.state.mode.next? lx p.state.kind c with
      | none => rfl
      | some q => simp [Progress.read_next hn] at hread
    by_cases hno : p.state.mode.accept? lx p.state.kind = none ∨
        ¬p.state.mode.Yields (lx.classify c)
    · rw [Progress.read_refused_within hi.within hn hno] at hread
      obtain rfl := Except.error.inj hread
      exact justified_of_refused_within hr hi.within hn hno hsuffix
    · -- The character has ended the lexeme and then begun nothing.
      obtain ⟨hacc, hy⟩ := not_or.mp hno
      obtain ⟨kind, ha⟩ := Option.ne_none_iff_exists'.mp hacc
      rw [Progress.read_handover hi.within ha hn (not_not.mp hy)] at hread
      obtain ⟨hb, hm, rfl⟩ := Progress.read_gap_error rfl rfl hread
      refine justified_of_refused_gap hr hb hm fun hdot => ?_
      simp [Mode.Yields, hdot] at hy

/-- Every error at the end of the input is justified. -/
theorem Stands.justified_of_close (hr : lx.Represents v) (h : Stands lx v pre p)
    (hclose : p.close lx = .error e) : e.Justified lx v pre := by
  obtain ⟨hw, ha, rfl⟩ := h.error_of_close hclose
  refine justified_of_refused_end hr hw ha ?_
  cases h with
  | between hb _ _ => exact absurd hb.mode hw.mode_ne_gap
  | @inside d _ hpre => exact ⟨d.chars, hpre⟩

/-- An error stands where the reading has stopped: it covers the character there or nothing at the
    end of the text, names the lexeme at hand, and is justified by what comes before. -/
theorem exists_refusal_of_error (hr : lx.Represents v) {text : String}
    (he : lx.tokenize text = .error e) :
    ∃ (pre post : String) (p : Progress) (fault : LexFault), text = pre ++ post ∧
      Progress.initial.readAll lx pre.toList = .ok p ∧
      e = ⟨fault, (post.toList.head?.map Found.char).getD .endOfInput, p.state.lexeme,
        Cursor.span ⟨post.toList, p.position⟩⟩ ∧
      e.Justified lx v pre.toList := by
  rcases tokenize_eq_error_iff.mp he with hread | ⟨p, hread, hclose⟩
  · obtain ⟨pre, c, post, p, htext, hpre, hcp⟩ := Progress.readAll_eq_error_iff.mp hread
    have hstands := stands_of_readAll hr hpre
    have hjustified := hstands.justified_of_read hr hcp
    obtain ⟨fault, rfl⟩ := hstands.exists_fault_of_read hcp
    refine ⟨String.ofList pre, String.ofList (c :: post), p, fault, ?_, by simpa using hpre, ?_,
      by simpa using hjustified⟩
    · rw [← String.ofList_append, ← htext, String.ofList_toList]
    · rw [String.toList_ofList]
      rfl
  · have hstands := stands_of_readAll hr hread
    have hjustified := hstands.justified_of_close hr hclose
    obtain ⟨-, -, rfl⟩ := hstands.error_of_close hclose
    exact ⟨text, "", p, _, by simp, hread, rfl, hjustified⟩

/-- An error is justified at the place that the reading has reached, and tells of the state there. -/
theorem exists_place_of_error (hr : lx.Represents v) {text : String}
    (he : lx.tokenize text = .error e) :
    ∃ (pre post : String) (p : Progress), text = pre ++ post ∧
      Progress.initial.readAll lx pre.toList = .ok p ∧ e.span.start = p.position.offset ∧
      e.context = p.state.lexeme ∧
      e.found = (post.toList.head?.map Found.char).getD .endOfInput ∧
      e.Justified lx v pre.toList := by
  obtain ⟨pre, post, p, fault, htext, hread, heq, hjustified⟩ := exists_refusal_of_error hr he
  exact ⟨pre, post, p, htext, hread, by rw [heq]; rfl, by rw [heq], by rw [heq], hjustified⟩

end Scan

/-- Errors say the truth. What is found stands at the error's place, the context is the lexeme most
    recently begun before it, however the text before it goes on to one that is accepted, and what
    the fault says of the two is so. -/
theorem errors_say_the_truth {v : Vocabulary} (hv : v.validate = .ok ()) :
    ∃ lx, Lexicon.compile v = .ok lx ∧ ∀ text e, lx.tokenize text = .error e →
      ∃ pre post : String, text = pre ++ post ∧ pre.utf8ByteSize = e.span.start ∧
        e.found = (post.toList.head?.map Found.char).getD .endOfInput ∧
        e.Justified lx v pre.toList ∧
        (∃ s ts, lx.tokenize (pre ++ s) = .ok ts) ∧
        ∀ s ts, lx.tokenize (pre ++ s) = .ok ts →
          e.context = latestLexeme pre ts ∧
          (e.context = "" ↔ ∀ t ∈ ts, pre.utf8ByteSize ≤ t.span.start) := by
  obtain ⟨lx, hc, hr⟩ := Lexicon.compile_represents hv
  refine ⟨lx, hc, fun text e he => ?_⟩
  obtain ⟨pre, post, p, htext, hread, hstart, hcontext, hfound, hjustified⟩ :=
    exists_place_of_error hr he
  have hsize : pre.utf8ByteSize = e.span.start := by
    rw [hstart, Progress.position_of_readAll hread]
    simp [Progress.initial, Position.start]
  refine ⟨pre, post, htext, hsize, hfound, hjustified, ?_, fun s ts hts => ?_⟩
  · simpa using exists_suffix_ok hr hread
  · rw [hcontext]
    exact lexeme_eq_latestLexeme hr hread hts

/-- With the operators `<` and `<<=`, the text `if <<b` is refused at the `b`: the lexeme at hand is
    `<<`, which begins an operator, is none, and no operator goes on with `b`. -/
theorem error_tells_of_half_an_operator :
    Vocabulary.validate ⟨["if"], ["<", "<<="]⟩ = .ok () ∧
      ∃ lx, Lexicon.compile ⟨["if"], ["<", "<<="]⟩ = .ok lx ∧
        ∃ e, lx.tokenize "if <<b" = .error e ∧ e.fault = .invalidOperator .incomplete ∧
          e.Justified lx ⟨["if"], ["<", "<<="]⟩ "if <<".toList ∧
          ∀ s ts, lx.tokenize ("if <<" ++ s) = .ok ts → latestLexeme "if <<" ts = "<<" := by
  have hv : Vocabulary.validate ⟨["if"], ["<", "<<="]⟩ = .ok () := rfl
  obtain ⟨lx, hc, h⟩ := errors_say_the_truth hv
  have hrun : (Lexicon.compile ⟨["if"], ["<", "<<="]⟩).toOption.map (·.tokenize "if <<b") =
      some (.error ⟨.invalidOperator .incomplete, .char 'b', "<<", ⟨5, 6, 1, 6⟩⟩) := rfl
  rw [hc] at hrun
  have he := Option.some.inj hrun
  obtain ⟨pre, post, htext, hsize, -, hjustified, -, hlatest⟩ := h _ _ he
  have htake := Text.takeBytes?_append pre.toList post.toList
  rw [← String.toList_append, ← htext, Text.byteLength_toList, hsize] at htake
  obtain rfl : "if <<" = pre := String.toList_inj.mp (Option.some.inj htake)
  exact ⟨hv, lx, hc, _, he, rfl, hjustified, fun s ts hts => (hlatest s ts hts).1.symm⟩

end Lexis
