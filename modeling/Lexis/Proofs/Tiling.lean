import Lexis.Proofs.Scan.Invariant

/-!
  Lexis.Proofs.Tiling

  Tokens and white space tile a text. Every token stands where its span says, with the line and
  column of the line table; the stretches that no token covers hold white space only; so the values
  in order are the text without its white space.
-/

namespace Lexis

open Scan

variable {lx : Lexicon} {v : Vocabulary} {d : Layout} {p : Position} {xs : List Piece} {t : Token}

/-- The stretches of bytes that no token covers: before the first token, between neighbours, and
    after the last one up to `size`. -/
def uncovered (size : Nat) : Nat → List Token → List (Nat × Nat)
  | reached, [] => [(reached, size)]
  | reached, t :: ts => (reached, t.span.start) :: uncovered size t.span.stop ts

namespace Layout

/-- Every token of a layout is a lexeme at its place. -/
theorem exists_of_mem_tokensFrom (h : t ∈ tokensFrom p xs) :
    ∃ x ∈ xs, ∃ pre post, xs.flatMap Piece.chars = pre ++ x.value.toList ++ post ∧
      t = ⟨x.value, x.kind, ⟨(p.after pre).offset,
        (p.after pre).offset + Text.byteLength x.value.toList, (p.after pre).line,
        (p.after pre).column⟩⟩ := by
  induction xs generalizing p with
  | nil => simp [tokensFrom] at h
  | cons x xs ih =>
    rw [tokensFrom, List.mem_cons] at h
    rcases h with rfl | h
    · exact ⟨x, by simp, x.gap.toList, xs.flatMap Piece.chars, by simp [Piece.chars], rfl⟩
    · obtain ⟨y, hy, pre, post, hchars, rfl⟩ := ih h
      refine ⟨y, by simp [hy], x.chars ++ pre, post, by simp [hchars], ?_⟩
      simp only [Position.after_append]

theorem isChain_tokensFrom (p : Position) (xs : List Piece) :
    (tokensFrom p xs).IsChain fun t u => t.span.stop ≤ u.span.start := by
  induction xs generalizing p with
  | nil => exact .nil
  | cons x xs ih =>
    rw [tokensFrom, List.isChain_cons]
    refine ⟨?_, ih _⟩
    intro u hu
    cases xs with
    | nil => simp [tokensFrom] at hu
    | cons y ys =>
      obtain rfl : y.token (p.after x.chars) = u := by simpa [tokensFrom] using hu
      simp [Piece.token, Piece.chars]
      omega

/-- What the tokens leave uncovered is white space. -/
theorem blank_of_mem_uncovered {text pre : List Char} {trail : String} {g : Nat × Nat}
    (hgaps : ∀ x ∈ xs, ∀ c ∈ x.gap.toList, Text.isBlank c = true)
    (htrail : ∀ c ∈ trail.toList, Text.isBlank c = true)
    (htext : text = pre ++ xs.flatMap Piece.chars ++ trail.toList)
    (hg : g ∈ uncovered (Text.byteLength text) (Text.byteLength pre)
      (tokensFrom (Position.start.after pre) xs)) :
    ∃ ws, Text.slice? text g.1 g.2 = some ws ∧ ∀ c ∈ ws, Text.isBlank c = true := by
  induction xs generalizing pre with
  | nil =>
    obtain rfl : g = (Text.byteLength pre, Text.byteLength text) := by
      simpa [tokensFrom, uncovered] using hg
    refine ⟨trail.toList, ?_, htrail⟩
    have hslice := Source.slice?_boundary pre trail.toList []
    simpa [htext] using hslice
  | cons x xs ih =>
    rw [tokensFrom, uncovered, List.mem_cons] at hg
    rcases hg with rfl | hg
    · refine ⟨x.gap.toList, ?_, hgaps x (by simp)⟩
      have hslice := Source.slice?_boundary pre x.gap.toList
        (x.value.toList ++ (xs.flatMap Piece.chars ++ trail.toList))
      simpa [htext, Piece.token, Piece.chars, Position.start] using hslice
    · -- The next stretch begins where the text so far has been used up by `x`.
      have hnext : text = (pre ++ x.chars) ++ xs.flatMap Piece.chars ++ trail.toList := by
        simp [htext]
      refine ih (fun y hy => hgaps y (by simp [hy])) hnext ?_
      simpa [Piece.token, Piece.chars, Position.after_append, Position.start, Nat.add_assoc]
        using hg

theorem filter_blank {ws : List Char} (h : ∀ c ∈ ws, Text.isBlank c = true) :
    ws.filter (fun c => !Text.isBlank c) = [] := by
  rw [List.filter_eq_nil_iff]
  intro c hc
  simp [h c hc]

/-- Without its white space a list of pieces is the list of its values. -/
theorem filter_flatMap_chars (hr : lx.Represents v)
    (hgaps : ∀ x ∈ xs, ∀ c ∈ x.gap.toList, Text.isBlank c = true)
    (hlexemes : ∀ x ∈ xs, v.IsLexeme x.value x.kind) :
    (xs.flatMap Piece.chars).filter (fun c => !Text.isBlank c) =
      xs.flatMap fun x => x.value.toList := by
  induction xs with
  | nil => rfl
  | cons x xs ih =>
    have hgap := filter_blank (hgaps x (by simp))
    have hvalue : x.value.toList.filter (fun c => !Text.isBlank c) = x.value.toList := by
      rw [List.filter_eq_self]
      intro c hc
      simp [(hlexemes x (by simp)).isBlank_eq_false hr hc]
    have hrest := ih (fun y hy => hgaps y (by simp [hy])) fun y hy => hlexemes y (by simp [hy])
    simp only [List.flatMap_cons, Piece.chars, List.filter_append, hgap, hvalue, List.nil_append]
    rw [hrest]

/-- The values of a layout are its characters without the white space. -/
theorem join_values (hr : lx.Represents v) (hd : d.Valid v) :
    String.join (d.tokens.map Token.value) =
      String.ofList (d.chars.filter fun c => !Text.isBlank c) := by
  apply String.toList_inj.mp
  rw [String.toList_join, String.toList_ofList, chars, List.filter_append, filter_blank hd.trail,
    List.append_nil, filter_flatMap_chars hr hd.gaps hd.lexemes, tokens, map_value_tokensFrom,
    List.flatMap_map]

/-- A token stands where its span says, and the span is not empty. -/
theorem span_of_mem_tokens (hr : lx.Represents v) (hd : d.Valid v) (name : String)
    (ht : t ∈ d.tokens) :
    (Source.mk name d.text).snippet t.span = .ok t.value ∧ t.span.start < t.span.stop ∧
      (t.span.line, t.span.column) = (Source.mk name d.text).lineCol t.span.start := by
  obtain ⟨x, hx, pre, post, hchars, rfl⟩ := exists_of_mem_tokensFrom ht
  have htext : (Source.mk name d.text).chars =
      pre ++ x.value.toList ++ (post ++ d.trail.toList) := by
    simp [Source.chars, chars, hchars]
  have hoffset : (Position.start.after pre).offset = Text.byteLength pre := by
    simp [Position.start]
  have hpos : 0 < Text.byteLength x.value.toList :=
    Nat.lt_of_lt_of_le (List.length_pos_iff.mpr ((hd.lexemes x hx).toList_ne_nil hr))
      (Text.length_le_byteLength _)
  refine ⟨?_, ?_, ?_⟩
  · rw [hoffset, Source.snippet_boundary htext, String.ofList_toList]
  · simpa using hpos
  · simp only [hoffset]
    rw [Source.lineCol_boundary (by simpa using htext)]

end Layout

/-- Tokens and white space tile the text: spans are exact, in order and not empty, and what lies
    outside them is white space. -/
theorem tokens_tile_text (hv : v.validate = .ok ()) :
    ∃ lx, Lexicon.compile v = .ok lx ∧ ∀ name text ts, lx.tokenize text = .ok ts →
      (∀ t ∈ ts, (Source.mk name text).snippet t.span = .ok t.value ∧
        t.span.start < t.span.stop ∧ t.span.length = .ok (t.span.stop - t.span.start) ∧
        (t.span.line, t.span.column) = (Source.mk name text).lineCol t.span.start) ∧
      ts.IsChain (fun t u => t.span.stop ≤ u.span.start) ∧
      (∀ g ∈ uncovered (Source.mk name text).size 0 ts, ∃ ws,
        Text.slice? text.toList g.1 g.2 = some ws ∧ ∀ c ∈ ws, Text.isBlank c = true) ∧
      String.join (ts.map Token.value) =
        String.ofList (text.toList.filter fun c => !Text.isBlank c) := by
  obtain ⟨lx, hc, hr⟩ := Lexicon.compile_represents hv
  refine ⟨lx, hc, fun name text ts hts => ?_⟩
  obtain ⟨d, hd, rfl, rfl⟩ := (tokenize_eq_ok_iff hr text ts).mp hts
  refine ⟨fun t ht => ?_, Layout.isChain_tokensFrom _ _, fun g hg => ?_, ?_⟩
  · obtain ⟨hsnippet, hlt, hplace⟩ := Layout.span_of_mem_tokens hr hd name ht
    have hlen : t.span.length = .ok (t.span.stop - t.span.start) := by
      simp [Span.length, Word.subtract, Nat.le_of_lt hlt]
    exact ⟨hsnippet, hlt, hlen, hplace⟩
  · have htext : d.text.toList = [] ++ d.pieces.flatMap Piece.chars ++ d.trail.toList := by
      simp [Layout.chars]
    exact Layout.blank_of_mem_uncovered hd.gaps hd.trail htext hg
  · rw [Layout.toList_text]
    exact Layout.join_values hr hd

/-- An arrow of three bytes and a line end between tokens: bytes and columns count apart, and only
    the line end and the blank after it are uncovered. -/
theorem tokens_tile_arrow :
    Vocabulary.validate ⟨["if"], ["→"]⟩ = .ok () ∧
      ∃ lx, Lexicon.compile ⟨["if"], ["→"]⟩ = .ok lx ∧
        ∃ ts, lx.tokenize "if→\n 2.5" = .ok ts ∧
          ts.map Token.span = [⟨0, 2, 1, 1⟩, ⟨2, 5, 1, 3⟩, ⟨7, 10, 2, 2⟩] ∧
          (∀ t ∈ ts, (Source.mk "t" "if→\n 2.5").snippet t.span = .ok t.value) ∧
          (∃ ws, Text.slice? "if→\n 2.5".toList 5 7 = some ws ∧ ∀ c ∈ ws, Text.isBlank c = true) ∧
          String.join (ts.map Token.value) = "if→2.5" := by
  have hv : Vocabulary.validate ⟨["if"], ["→"]⟩ = .ok () := rfl
  obtain ⟨lx, hc, h⟩ := tokens_tile_text hv
  have hrun : (Lexicon.compile ⟨["if"], ["→"]⟩).toOption.map (·.tokenize "if→\n 2.5") =
      some (.ok [⟨"if", .keyword, ⟨0, 2, 1, 1⟩⟩, ⟨"→", .operator, ⟨2, 5, 1, 3⟩⟩,
        ⟨"2.5", .float, ⟨7, 10, 2, 2⟩⟩]) := rfl
  rw [hc] at hrun
  have hts := Option.some.inj hrun
  obtain ⟨hspans, -, hgaps, hjoin⟩ := h "t" _ _ hts
  exact ⟨hv, lx, hc, _, hts, rfl, fun t ht => (hspans t ht).1, hgaps (5, 7) (by decide +kernel),
    hjoin.trans rfl⟩

end Lexis
