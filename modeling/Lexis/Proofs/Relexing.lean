import Lexis.Proofs.Scan.Invariant

/-!
  Lexis.Proofs.Relexing

  Tokens survive a change of the white space around them. The lexemes of an accepted text, written
  again with white space between any two of them, are read back as the same lexemes of the same
  kinds: a layout stays valid when its gaps are replaced, because only lexemes that touch have to be
  told apart. Joining by one space is the case that can be repeated without further change.
-/

namespace Lexis

open Scan

variable {v : Vocabulary} {d : Layout} {gaps : List String} {trail : String}

/-- The text that has each value after its gap, and the trail at the end. -/
def spaced (gaps values : List String) (trail : String) : String :=
  String.join ((gaps.zip values).map fun p => p.1 ++ p.2) ++ trail

/-- The gaps of `n` values that are joined by one space: none before the first value. -/
def singleSpaces : Nat → List String
  | 0 => []
  | n + 1 => "" :: List.replicate n " "

theorem length_singleSpaces (n : Nat) : (singleSpaces n).length = n := by
  cases n <;> simp [singleSpaces]

theorem eq_of_mem_singleSpaces {n : Nat} {g : String} (h : g ∈ singleSpaces n) :
    g = "" ∨ g = " " := by
  cases n with
  | zero => simp [singleSpaces] at h
  | succ n =>
    rcases List.mem_cons.mp h with rfl | h
    · exact Or.inl rfl
    · exact Or.inr (List.eq_of_mem_replicate h)

theorem eq_of_mem_tail_singleSpaces {n : Nat} {g : String} (h : g ∈ (singleSpaces n).tail) :
    g = " " := by
  cases n with
  | zero => simp [singleSpaces] at h
  | succ n => exact List.eq_of_mem_replicate h

theorem intercalate_eq_spaced (values : List String) :
    " ".intercalate values = spaced (singleSpaces values.length) values "" := by
  cases values with
  | nil => rfl
  | cons x xs =>
    -- Every value after the first brings its own space along.
    have hrest : ∀ x : String, " ".intercalate (x :: xs) =
        x ++ String.join (((List.replicate xs.length " ").zip xs).map fun p => p.1 ++ p.2) := by
      induction xs with
      | nil => simp
      | cons y ys ih =>
        intro x
        rw [String.intercalate_cons_cons, ih y]
        simp [List.replicate_succ, String.append_assoc]
    rw [hrest x]
    simp [spaced, singleSpaces]

namespace Layout

/-- The same lexemes with other white space. -/
def respace (d : Layout) (gaps : List String) (trail : String) : Layout :=
  ⟨(gaps.zip d.pieces).map fun p => { p.2 with gap := p.1 }, trail⟩

theorem labels_respace (d : Layout) (trail : String) (hlen : gaps.length = d.pieces.length) :
    (d.respace gaps trail).labels = d.labels := by
  have hsnd : (gaps.zip d.pieces).map Prod.snd = d.pieces :=
    List.map_snd_zip (Nat.le_of_eq hlen.symm)
  calc (d.respace gaps trail).labels
      = ((gaps.zip d.pieces).map Prod.snd).map Piece.label := by
        simp [labels, respace, Piece.label, Function.comp_def]
    _ = d.labels := by rw [hsnd, labels]

theorem text_respace (d : Layout) (gaps : List String) (trail : String) :
    (d.respace gaps trail).text = spaced gaps (d.pieces.map Piece.value) trail := by
  apply String.toList_inj.mp
  simp [chars, respace, spaced, Piece.chars, List.flatMap_map, List.zip_map_right,
    Function.comp_def]

/-- White space between any two lexemes keeps them apart, whatever it was before. -/
theorem Valid.respace (h : d.Valid v)
    (hblank : ∀ g ∈ gaps, ∀ c ∈ g.toList, Text.isBlank c = true)
    (htrail : ∀ c ∈ trail.toList, Text.isBlank c = true) (hne : ∀ g ∈ gaps.tail, g ≠ "") :
    (d.respace gaps trail).Valid v where
  gaps := by
    intro x hx
    obtain ⟨⟨g, y⟩, hp, rfl⟩ := List.mem_map.mp hx
    exact hblank g (List.of_mem_zip hp).1
  trail := htrail
  lexemes := by
    intro x hx
    obtain ⟨⟨g, y⟩, hp, rfl⟩ := List.mem_map.mp hx
    exact h.lexemes y (List.of_mem_zip hp).2
  meets := by
    -- No two lexemes touch, so there is nothing to ask of neighbours.
    rw [List.isChain_iff_getElem]
    intro i hi hgap
    have hg : i + 1 < gaps.length := by
      simp only [Layout.respace, List.length_map, List.length_zip] at hi
      omega
    have htail : gaps[i + 1] ∈ gaps.tail := by
      rw [← List.getElem_tail (h := by simpa using by omega)]
      exact List.getElem_mem _
    exact absurd (by simpa [Layout.respace] using hgap) (hne _ htail)

end Layout

/-- New gaps around the lexemes of an accepted text change nothing but places. -/
theorem Scan.tokenize_spaced {lx : Lexicon} (hr : lx.Represents v) {text : String}
    {ts : List Token} (hts : lx.tokenize text = .ok ts) (hlen : gaps.length = ts.length)
    (hblank : ∀ g ∈ gaps, ∀ c ∈ g.toList, Text.isBlank c = true)
    (htrail : ∀ c ∈ trail.toList, Text.isBlank c = true) (hne : ∀ g ∈ gaps.tail, g ≠ "") :
    ∃ us, lx.tokenize (spaced gaps (ts.map Token.value) trail) = .ok us ∧
      us.map Token.label = ts.map Token.label := by
  obtain ⟨d, hd, rfl, rfl⟩ := (tokenize_eq_ok_iff hr text ts).mp hts
  have hvalues : d.tokens.map Token.value = d.pieces.map Piece.value :=
    Layout.map_value_tokensFrom .start d.pieces
  have hpieces : gaps.length = d.pieces.length := by
    rw [hlen, ← List.length_map (f := Token.value), hvalues, List.length_map]
  refine ⟨(d.respace gaps trail).tokens, (tokenize_eq_ok_iff hr _ _).mpr
    ⟨_, hd.respace hblank htrail hne, ?_, rfl⟩, ?_⟩
  · rw [Layout.text_respace, hvalues]
  · rw [Layout.map_label_tokens, Layout.labels_respace d trail hpieces, Layout.map_label_tokens]

/-- Re-lexing is stable: the values of an accepted text, with white space between any two of them
    and anywhere around them, are read back with their kinds; and joining by one space is undone
    and redone without a change. -/
theorem relexing_is_stable (hv : v.validate = .ok ()) :
    ∃ lx, Lexicon.compile v = .ok lx ∧ ∀ text ts, lx.tokenize text = .ok ts →
      (∀ (gaps : List String) (trail : String), gaps.length = ts.length →
        (∀ g ∈ gaps, ∀ c ∈ g.toList, Text.isBlank c = true) →
        (∀ c ∈ trail.toList, Text.isBlank c = true) → (∀ g ∈ gaps.tail, g ≠ "") →
        ∃ us, lx.tokenize (spaced gaps (ts.map Token.value) trail) = .ok us ∧
          us.map Token.label = ts.map Token.label) ∧
      ∃ us, lx.tokenize (" ".intercalate (ts.map Token.value)) = .ok us ∧
        us.map Token.label = ts.map Token.label ∧
        " ".intercalate (us.map Token.value) = " ".intercalate (ts.map Token.value) := by
  obtain ⟨lx, hc, hr⟩ := Lexicon.compile_represents hv
  refine ⟨lx, hc, fun text ts hts => ⟨fun gaps trail hlen hblank htrail hne =>
    tokenize_spaced hr hts hlen hblank htrail hne, ?_⟩⟩
  obtain ⟨us, hus, hlabels⟩ : ∃ us, lx.tokenize (" ".intercalate (ts.map Token.value)) = .ok us ∧
      us.map Token.label = ts.map Token.label := by
    rw [intercalate_eq_spaced, List.length_map]
    refine tokenize_spaced hr hts (length_singleSpaces _) (fun g hg => ?_) (by simp) fun g hg => ?_
    · rcases eq_of_mem_singleSpaces hg with rfl | rfl
      · simp
      · exact List.all_eq_true.mp rfl
    · rw [eq_of_mem_tail_singleSpaces hg]
      decide
  have hvalues : us.map Token.value = ts.map Token.value := by
    have h := congrArg (List.map Prod.fst) hlabels
    simpa [Token.label, Function.comp_def] using h
  exact ⟨us, hus, hlabels, by rw [hvalues]⟩

/-- Six lexemes that touch, two operators among them side by side, are read back from six lines and
    from one line with a space between any two: the same values with the same kinds. -/
theorem relexing_split_operators :
    Vocabulary.validate ⟨["if"], ["<", "<<=", "!"]⟩ = .ok () ∧
      ∃ lx, Lexicon.compile ⟨["if"], ["<", "<<=", "!"]⟩ = .ok lx ∧
        ∃ ts, lx.tokenize "if<!2.5<x" = .ok ts ∧
          ts.map Token.label = [("if", .keyword), ("<", .operator), ("!", .operator),
            ("2.5", .float), ("<", .operator), ("x", .word)] ∧
          (∃ us, lx.tokenize "if\n<\n!\n2.5\n<\nx\n" = .ok us ∧
            us.map Token.label = ts.map Token.label) ∧
          ∃ us, lx.tokenize "if < ! 2.5 < x" = .ok us ∧
            us.map Token.label = ts.map Token.label := by
  have hv : Vocabulary.validate ⟨["if"], ["<", "<<=", "!"]⟩ = .ok () := rfl
  obtain ⟨lx, hc, h⟩ := relexing_is_stable hv
  have hrun : (Lexicon.compile ⟨["if"], ["<", "<<=", "!"]⟩).toOption.map (·.tokenize "if<!2.5<x") =
      some (.ok [⟨"if", .keyword, ⟨0, 2, 1, 1⟩⟩, ⟨"<", .operator, ⟨2, 3, 1, 3⟩⟩,
        ⟨"!", .operator, ⟨3, 4, 1, 4⟩⟩, ⟨"2.5", .float, ⟨4, 7, 1, 5⟩⟩,
        ⟨"<", .operator, ⟨7, 8, 1, 8⟩⟩, ⟨"x", .word, ⟨8, 9, 1, 9⟩⟩]) := rfl
  rw [hc] at hrun
  have hts := Option.some.inj hrun
  obtain ⟨hgaps, us, hus, hlabels, -⟩ := h _ _ hts
  have hblank : ∀ c ∈ "\n".toList, Text.isBlank c = true := List.all_eq_true.mp rfl
  refine ⟨hv, lx, hc, _, hts, rfl, ?_, us, hus, hlabels⟩
  exact hgaps ["", "\n", "\n", "\n", "\n", "\n"] "\n" rfl (by simpa using hblank) hblank
    (by simp)

end Lexis
