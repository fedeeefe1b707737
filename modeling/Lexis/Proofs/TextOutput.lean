import Lexis.Report.FileScan
import Lexis.Proofs.Source.Lines
import Lexis.Proofs.VocabularyMembers
import Mathlib.Logic.Function.Basic

/-!
  Lexis.Proofs.TextOutput

  The text that is shown for scanned inputs loses nothing. A line ends with a character that is no
  white space: that of a token with its value, a header with its last mark. So the final trimming
  takes the one line end that the last block leaves, and nothing else. Nor does a line of a token
  hold a line end, so the output of a single input divides into its lines. On such a line the place
  reaches up to the first space, however wide it is, and the kind up to the next column
  (`column_inj`); what follows is the value.
-/

namespace Lexis

/-- What a line of text shows of a token. -/
def Token.shown (t : Token) : Nat × Nat × TokenKind × String :=
  (t.span.line, t.span.column, t.kind, t.value)

namespace FileScan

/-- The lines of one input: its header when there are several inputs, and one for each token. -/
def blockLines (headed : Bool) (name : String) (tokens : List Token) : List String :=
  (if headed then ["==> " ++ name ++ " <=="] else []) ++ tokens.map tokenLine

/-- The lines of every scan that succeeded. -/
def shownLines (scans : List FileScan) : List (List String) :=
  scans.filterMap fun s => s.tokens?.map (blockLines (decide (1 < scans.length)) s.name)

/-- The tokens of the scan, if it succeeded, are those of some text under a valid vocabulary. -/
def Tokenizes (s : FileScan) : Prop :=
  ∀ ts, s.tokens? = some ts → ∃ v lx text, Vocabulary.validate v = .ok () ∧
    Lexicon.compile v = .ok lx ∧ lx.tokenize text = .ok ts

variable {s s' : FileScan} {ts ts' : List Token} {t u : Token} {scans : List FileScan}

/-! ## Ends of lines -/

/-- A text that ends, and does not end with white space. -/
def EndsVisibly (s : String) : Prop := ∃ c, s.toList.getLast? = some c ∧ Text.isBlank c = false

theorem EndsVisibly.append (a : String) {b : String} (h : EndsVisibly b) : EndsVisibly (a ++ b) := by
  obtain ⟨c, hc, hblank⟩ := h
  refine ⟨c, ?_, hblank⟩
  rw [String.toList_append, List.getLast?_append, hc]
  rfl

theorem EndsVisibly.intercalate {sep : String} {ls : List String} (hne : ls ≠ [])
    (h : ∀ l ∈ ls, EndsVisibly l) : EndsVisibly (sep.intercalate ls) := by
  induction ls with
  | nil => exact absurd rfl hne
  | cons l ls ih =>
    cases ls with
    | nil => simpa using h l List.mem_cons_self
    | cons m ls =>
      rw [String.intercalate_cons_cons]
      exact (ih (by simp) fun x hx => h x (List.mem_cons_of_mem l hx)).append (l ++ sep)

/-- Trimming takes a line end after a text that ends visibly, and no more. -/
theorem EndsVisibly.trimTrailing_newline {s : String} (h : EndsVisibly s) :
    Text.trimTrailing (s ++ "\n") = s := by
  obtain ⟨c, hc, hblank⟩ := h
  have hlast : ∀ d, s.toList.getLast? = some d → Text.isBlank d = false := by
    intro d hd
    rw [hc] at hd
    exact Option.some.inj hd ▸ hblank
  have htrim : Text.dropTrailing Text.isBlank ['\n'] = [] := by decide
  rw [Text.trimTrailing, String.toList_append]
  show String.ofList (Text.dropTrailing Text.isBlank (s.toList ++ ['\n'])) = s
  rw [Text.dropTrailing_append_of_neg hlast, htrim, List.append_nil, String.ofList_toList]

/-! ## Lines of tokens -/

/-- A value that a scan can produce: some text, and no white space in it. -/
def IsVisible (value : String) : Prop :=
  value.toList ≠ [] ∧ ∀ c ∈ value.toList, Text.isBlank c = false

theorem Tokenizes.isVisible (h : s.Tokenizes) (hs : s.tokens? = some ts) (ht : t ∈ ts) :
    IsVisible t.value := by
  obtain ⟨v, lx, text, hv, hlx, hts⟩ := h ts hs
  obtain ⟨lx', hlx', hr⟩ := Lexicon.compile_represents hv
  obtain rfl : lx' = lx := Except.ok.inj (hlx'.symm.trans hlx)
  have hlexeme := Scan.isLexeme_of_mem_tokens hr hts ht
  exact ⟨hlexeme.toList_ne_nil hr, fun c hc => hlexeme.isBlank_eq_false hr hc⟩

theorem endsVisibly_tokenLine (h : IsVisible t.value) : EndsVisibly (tokenLine t) := by
  have hvalue : EndsVisibly t.value :=
    ⟨_, List.getLast?_eq_some_getLast h.1, h.2 _ (List.getLast_mem h.1)⟩
  exact hvalue.append _

theorem endsVisibly_header (name : String) : EndsVisibly ("==> " ++ name ++ " <==") :=
  EndsVisibly.append _ ⟨'=', by decide, by decide⟩

/-- A text in a column, and the next column. -/
theorem toList_padRight (width : Nat) (a : String) :
    (padRight width a).toList = a.toList ++ List.replicate (width - a.toList.length) ' ' := by
  rw [padRight, String.toList_append, String.toList_ofList, String.length_toList]

/-- The digits of a number. -/
theorem isDigit_of_mem_toString {n : Nat} {c : Char} (h : c ∈ (toString n).toList) :
    c.isDigit = true := by
  have h : c ∈ (Nat.repr n).toList := h
  rw [Nat.toList_repr] at h
  exact Nat.isDigit_of_mem_toDigits (by decide) (by decide) h

theorem toList_span_text (s : Span) :
    s.text.toList = (toString s.line).toList ++ ':' :: (toString s.column).toList := by
  show ((toString s.line ++ ":") ++ toString s.column).toList = _
  rw [String.toList_append, String.toList_append, List.append_assoc]
  rfl

/-- A place is written with digits and a colon. -/
theorem mem_span_text {s : Span} {c : Char} (h : c ∈ s.text.toList) :
    c.isDigit = true ∨ c = ':' := by
  rw [toList_span_text, List.mem_append, List.mem_cons] at h
  rcases h with h | rfl | h
  · exact Or.inl (isDigit_of_mem_toString h)
  · exact Or.inr rfl
  · exact Or.inl (isDigit_of_mem_toString h)

theorem toList_tokenLine (t : Token) :
    (tokenLine t).toList = t.span.text.toList ++
      List.replicate (9 - t.span.text.toList.length) ' ' ++ ' ' :: (t.kind.name.toList ++
      List.replicate (9 - t.kind.name.toList.length) ' ' ++ ' ' :: t.value.toList) := by
  simp [tokenLine, toList_padRight]

theorem newline_notMem_tokenLine (h : IsVisible t.value) : '\n' ∉ (tokenLine t).toList := by
  have hplace : '\n' ∉ t.span.text.toList := fun hc => by
    rcases mem_span_text hc with hc | hc
    · cases hc
    · cases hc
  have hkind : '\n' ∉ t.kind.name.toList := by
    cases t.kind <;> decide
  have hvalue : '\n' ∉ t.value.toList := fun hc => by
    cases h.2 '\n' hc
  simp [toList_tokenLine, hplace, hkind, hvalue]

/-! ## Lines determine tokens -/

/-- What stands before the first occurrence of a mark, and after it. -/
theorem append_cons_inj {c : Char} {as bs xs ys : List Char} (has : c ∉ as) (hbs : c ∉ bs)
    (h : as ++ c :: xs = bs ++ c :: ys) : as = bs ∧ xs = ys := by
  have htake : ∀ as xs : List Char, c ∉ as → (as ++ c :: xs).takeWhile (· ≠ c) = as := by
    intro as xs has
    rw [List.takeWhile_append_of_pos (by simpa using fun d hd => ne_of_mem_of_not_mem hd has)]
    simp
  have heq : as = bs := by rw [← htake as xs has, h, htake bs ys hbs]
  subst heq
  exact ⟨rfl, List.cons.inj (List.append_cancel_left h) |>.2⟩

/-- A column is read up to its first space, whether the text fills the column or not. -/
theorem column_inj {width : Nat} {as bs xs ys : List Char} (has : ' ' ∉ as) (hbs : ' ' ∉ bs)
    (h : as ++ List.replicate (width - as.length) ' ' ++ ' ' :: xs =
      bs ++ List.replicate (width - bs.length) ' ' ++ ' ' :: ys) : as = bs ∧ xs = ys := by
  have hspace : ∀ {n : Nat} {zs : List Char},
      List.replicate n ' ' ++ ' ' :: zs = ' ' :: (List.replicate n ' ' ++ zs) := by
    intro n zs
    rw [← List.singleton_append, ← List.append_assoc, ← List.replicate_succ']
    rfl
  rw [List.append_assoc, List.append_assoc, hspace, hspace] at h
  obtain ⟨rfl, hrest⟩ := append_cons_inj has hbs h
  exact ⟨rfl, List.append_cancel_left hrest⟩

theorem toString_inj {m n : Nat} (h : (toString m).toList = (toString n).toList) : m = n := by
  have h : (Nat.repr m).toList = (Nat.repr n).toList := h
  rw [Nat.toList_repr, Nat.toList_repr] at h
  rw [← Nat.ofDigitChars_ten_toDigits (n := m), h, Nat.ofDigitChars_ten_toDigits]

theorem span_text_inj {s s' : Span} (h : s.text.toList = s'.text.toList) :
    s.line = s'.line ∧ s.column = s'.column := by
  have hcolon : ∀ n : Nat, ':' ∉ (toString n).toList := by
    intro n hc
    cases isDigit_of_mem_toString hc
  rw [toList_span_text, toList_span_text] at h
  obtain ⟨hline, hcolumn⟩ := append_cons_inj (hcolon _) (hcolon _) h
  exact ⟨toString_inj hline, toString_inj hcolumn⟩

/-- A line determines what it shows of its token. -/
theorem shown_factorsThrough_tokenLine : Function.FactorsThrough Token.shown tokenLine := by
  intro t u h
  have hplace : ∀ s : Span, ' ' ∉ s.text.toList := by
    intro s hc
    rcases mem_span_text hc with hc | hc
    · cases hc
    · cases hc
  have hkind : ∀ k : TokenKind, ' ' ∉ k.name.toList := by
    intro k
    cases k <;> decide
  have h : (tokenLine t).toList = (tokenLine u).toList := congrArg String.toList h
  rw [toList_tokenLine, toList_tokenLine] at h
  obtain ⟨hspan, hrest⟩ := column_inj (hplace _) (hplace _) h
  obtain ⟨hname, hvalue⟩ := column_inj (hkind _) (hkind _) hrest
  obtain ⟨hline, hcolumn⟩ := span_text_inj hspan
  have hkinds : t.kind = u.kind := by
    have hread := TokenKind.ofName?_name t.kind
    rw [String.toList_inj.mp hname, TokenKind.ofName?_name] at hread
    exact (Option.some.inj hread).symm
  rw [Token.shown, Token.shown, hline, hcolumn, hkinds, String.toList_inj.mp hvalue]

theorem map_shown_eq (h : ts.map tokenLine = ts'.map tokenLine) :
    ts.map Token.shown = ts'.map Token.shown := by
  have : Nonempty (Nat × Nat × TokenKind × String) := ⟨(0, 0, .word, "")⟩
  obtain ⟨read, hread⟩ := (Function.factorsThrough_iff Token.shown).mp
    shown_factorsThrough_tokenLine
  rw [hread, ← List.map_map, ← List.map_map, h]

/-! ## Blocks -/

theorem block_eq_join (headed : Bool) (name : String) (ts : List Token) :
    block headed name ts = String.join ((blockLines headed name ts).map (· ++ "\n")) := by
  have hheader : s!"==> {name} <==\n" = "==> " ++ name ++ " <==" ++ "\n" := by
    show "==> " ++ name ++ " <==\n" = _
    apply String.toList_inj.mp
    simp
  cases headed <;> simp [block, blockLines, hheader, Function.comp_def]

theorem blocks_eq (scans : List FileScan) :
    blocks scans = (shownLines scans).map fun ls => String.join (ls.map (· ++ "\n")) := by
  rw [blocks, shownLines, List.map_filterMap]
  refine List.filterMap_congr fun s _ => ?_
  cases s.tokens? with
  | none => rfl
  | some ts => exact congrArg some (block_eq_join _ _ _)

theorem length_shownLines (scans : List FileScan) :
    (shownLines scans).length = (blocks scans).length := by
  rw [blocks_eq, List.length_map]

theorem join_lines {ls : List String} (h : ls ≠ []) :
    String.join (ls.map (· ++ "\n")) = "\n".intercalate ls ++ "\n" := by
  induction ls with
  | nil => exact absurd rfl h
  | cons l ls ih =>
    cases ls with
    | nil => simp
    | cons m ls =>
      rw [List.map_cons, String.join_cons, ih (by simp), String.intercalate_cons_cons,
        ← String.append_assoc]

/-- Blocks of lines, each closed by a line end, with one more line end between two of them. -/
theorem intercalate_blocks {lss : List (List String)} (hne : lss ≠ []) (h : ∀ ls ∈ lss, ls ≠ []) :
    "\n".intercalate (lss.map fun ls => String.join (ls.map (· ++ "\n"))) =
      "\n\n".intercalate (lss.map ("\n".intercalate ·)) ++ "\n" := by
  induction lss with
  | nil => exact absurd rfl hne
  | cons ls lss ih =>
    have hls := join_lines (h ls List.mem_cons_self)
    cases lss with
    | nil => simpa using hls
    | cons ms lss =>
      have hrest := ih (by simp) fun x hx => h x (List.mem_cons_of_mem ls hx)
      simp only [List.map_cons, String.intercalate_cons_cons] at hrest ⊢
      rw [hrest, hls]
      simp [String.append_assoc]

/-- There is nothing to show, or every block has a line: only a single input has no header. -/
theorem shownLines_cases (scans : List FileScan) :
    (shownLines scans = [] ∨ shownLines scans = [[]]) ∨
      shownLines scans ≠ [] ∧ ∀ ls ∈ shownLines scans, ls ≠ [] := by
  by_cases hnil : shownLines scans = []
  · exact Or.inl (Or.inl hnil)
  by_cases hheaded : 1 < scans.length
  · refine Or.inr ⟨hnil, fun ls hls => ?_⟩
    obtain ⟨s, -, hs⟩ := List.mem_filterMap.mp hls
    obtain ⟨ts, -, rfl⟩ := Option.map_eq_some_iff.mp hs
    simp [blockLines, hheaded]
  · obtain ⟨s, rfl⟩ : ∃ s, scans = [s] := by
      cases scans with
      | nil => exact absurd rfl hnil
      | cons s scans =>
        cases scans with
        | nil => exact ⟨s, rfl⟩
        | cons s' scans => simp at hheaded
    obtain ⟨ts, hs⟩ : ∃ ts, s.tokens? = some ts := by
      refine Option.ne_none_iff_exists'.mp fun hs => hnil ?_
      simp [shownLines, hs]
    have hlines : shownLines [s] = [ts.map tokenLine] := by simp [shownLines, hs, blockLines]
    by_cases hts : ts = []
    · exact Or.inl (Or.inr (by rw [hlines, hts, List.map_nil]))
    · exact Or.inr ⟨hnil, by simpa [hlines] using hts⟩

theorem endsVisibly_of_mem_shownLines (h : ∀ s ∈ scans, s.Tokenizes) {ls : List String}
    (hls : ls ∈ shownLines scans) {l : String} (hl : l ∈ ls) : EndsVisibly l := by
  obtain ⟨s, hmem, hs⟩ := List.mem_filterMap.mp hls
  obtain ⟨ts, hts, rfl⟩ := Option.map_eq_some_iff.mp hs
  rw [blockLines, List.mem_append] at hl
  rcases hl with hl | hl
  · split_ifs at hl
    · rw [List.mem_singleton.mp hl]
      exact endsVisibly_header s.name
    · exact absurd hl List.not_mem_nil
  · obtain ⟨t, ht, rfl⟩ := List.mem_map.mp hl
    exact endsVisibly_tokenLine ((h s hmem).isVisible hts ht)

/-! ## The output -/

/-- The output is what it consists of, and lacks nothing of the blocks but the last line end. -/
theorem renderText_eq (h : ∀ s ∈ scans, s.Tokenizes) :
    renderText scans = "\n\n".intercalate ((shownLines scans).map ("\n".intercalate ·)) ∧
      "\n".intercalate (blocks scans) =
        renderText scans ++ (if (shownLines scans).flatten = [] then "" else "\n") := by
  rcases shownLines_cases scans with hnone | ⟨hne, hlines⟩
  · rw [renderText, blocks_eq]
    rcases hnone with hnone | hnone
    · rw [hnone]
      exact ⟨rfl, rfl⟩
    · rw [hnone]
      exact ⟨rfl, rfl⟩
  · have hflat : (shownLines scans).flatten ≠ [] := by
      obtain ⟨ls, hls⟩ := List.exists_mem_of_ne_nil _ hne
      exact fun hflat => hlines ls hls (List.flatten_eq_nil_iff.mp hflat ls hls)
    have hends : EndsVisibly ("\n\n".intercalate ((shownLines scans).map ("\n".intercalate ·))) := by
      apply EndsVisibly.intercalate (by simpa using hne)
      intro block hblock
      obtain ⟨ls, hls, rfl⟩ := List.mem_map.mp hblock
      exact EndsVisibly.intercalate (hlines ls hls) fun l hl =>
        endsVisibly_of_mem_shownLines h hls hl
    rw [renderText, blocks_eq, intercalate_blocks hne hlines, hends.trimTrailing_newline,
      if_neg hflat]
    exact ⟨rfl, rfl⟩

theorem getLast?_renderText (scans : List FileScan) :
    (renderText scans).toList.getLast? ≠ some '\n' := by
  intro h
  rw [renderText, Text.trimTrailing, String.toList_ofList, Text.dropTrailing,
    List.getLast?_reverse] at h
  have hkept := List.head?_dropWhile_not Text.isBlank
    ("\n".intercalate (blocks scans)).toList.reverse
  rw [h] at hkept
  cases hkept

theorem renderText_single (h : s.Tokenizes) (hs : s.tokens? = some ts) :
    renderText [s] = "\n".intercalate (ts.map tokenLine) := by
  have hlines : shownLines [s] = [ts.map tokenLine] := by simp [shownLines, hs, blockLines]
  rw [(renderText_eq (by simpa using h)).1, hlines]
  simp

/-- The output of a single input divides into the lines of its tokens. -/
theorem splitOn_renderText (h : s.Tokenizes) (hs : s.tokens? = some ts) (hne : ts ≠ []) :
    (renderText [s]).toList.splitOn '\n' = ts.map fun t => (tokenLine t).toList := by
  rw [renderText_single h hs, String.toList_intercalate, List.map_map]
  apply List.splitOn_intercalate
  · intro l hl
    obtain ⟨t, ht, rfl⟩ := List.mem_map.mp hl
    exact newline_notMem_tokenLine (h.isVisible hs ht)
  · simpa using hne

theorem eq_nil_of_renderText (h : s.Tokenizes) (hs : s.tokens? = some ts)
    (hempty : renderText [s] = "") : ts = [] := by
  by_contra hne
  have hends : EndsVisibly ("\n".intercalate (ts.map tokenLine)) := by
    apply EndsVisibly.intercalate (by simpa using hne)
    intro l hl
    obtain ⟨t, ht, rfl⟩ := List.mem_map.mp hl
    exact endsVisibly_tokenLine (h.isVisible hs ht)
  rw [← renderText_single h hs, hempty] at hends
  obtain ⟨c, hc, -⟩ := hends
  cases hc

/-- Equal output has equal lines, also when there are none. -/
theorem map_tokenLine_eq (h : s.Tokenizes) (h' : s'.Tokenizes) (hs : s.tokens? = some ts)
    (hs' : s'.tokens? = some ts') (heq : renderText [s] = renderText [s']) :
    ts.map tokenLine = ts'.map tokenLine := by
  by_cases hts : ts = []
  · have hempty : renderText [s'] = "" := by
      rw [← heq, renderText_single h hs, hts]
      rfl
    rw [hts, eq_nil_of_renderText h' hs' hempty]
  · have hts' : ts' ≠ [] := by
      intro hts'
      refine hts (eq_nil_of_renderText h hs ?_)
      rw [heq, renderText_single h' hs', hts']
      rfl
    have hsplit := splitOn_renderText h hs hts
    rw [heq, splitOn_renderText h' hs' hts'] at hsplit
    have hlines := congrArg (List.map String.ofList) hsplit
    simpa [Function.comp_def] using hlines.symm

/-- The text that is shown for scans consists of the blocks of those that succeeded, with an empty
    line between two of them; a block is a header, when there are several inputs, and a line for
    each token. Trimming takes the line end of the last block and nothing else. The output of a
    single input divides at the line ends into one line for each token. A line determines the line,
    column, kind and value of its token, so single inputs with the same output have the same
    sequence of them, whatever the vocabularies are. -/
theorem text_output_loses_nothing (scans : List FileScan) (h : ∀ s ∈ scans, s.Tokenizes) :
    renderText scans = "\n\n".intercalate ((shownLines scans).map ("\n".intercalate ·)) ∧
    "\n".intercalate (blocks scans) =
      renderText scans ++ (if (shownLines scans).flatten = [] then "" else "\n") ∧
    (renderText scans).toList.getLast? ≠ some '\n' ∧
    (∀ s ts, scans = [s] → s.tokens? = some ts →
      (ts = [] → renderText scans = "") ∧
      (ts ≠ [] → (renderText scans).toList.splitOn '\n' = ts.map fun t => (tokenLine t).toList)) ∧
    (∀ t u, tokenLine t = tokenLine u → t.shown = u.shown) ∧
    ∀ s s' ts ts', scans = [s] → s'.Tokenizes → s.tokens? = some ts → s'.tokens? = some ts' →
      renderText scans = renderText [s'] → ts.map Token.shown = ts'.map Token.shown := by
  obtain ⟨htext, hblocks⟩ := renderText_eq h
  refine ⟨htext, hblocks, getLast?_renderText scans, ?_, ?_, ?_⟩
  · rintro s ts rfl hs
    have hs₁ : s.Tokenizes := h s List.mem_cons_self
    refine ⟨fun hts => ?_, splitOn_renderText hs₁ hs⟩
    rw [renderText_single hs₁ hs, hts]
    rfl
  · exact fun t u heq => shown_factorsThrough_tokenLine heq
  · rintro s s' ts ts' rfl hs' hts hts' heq
    exact map_shown_eq (map_tokenLine_eq (h s List.mem_cons_self) hs' hts hts' heq)

/-- Three inputs of which one failed and one is empty: two blocks, and the header of the second
    keeps the blanks of its name. -/
theorem text_output_of_three_inputs :
    let scans : List FileScan := [
      ⟨"a", none, .ok [⟨"if", .keyword, ⟨0, 2, 1, 1⟩⟩, ⟨"→", .operator, ⟨2, 5, 1, 3⟩⟩,
        ⟨"2.5", .float, ⟨7, 10, 2, 2⟩⟩]⟩,
      ⟨"b", none, .error (.input (.missing "b"))⟩, ⟨" c ", none, .ok []⟩]
    (∀ s ∈ scans, s.Tokenizes) ∧ renderText scans =
      "==> a <==\n1:1       keyword   if\n1:3       operator  →\n2:2       float     2.5\n\n" ++
      "==>  c  <==" := by
  intro scans
  have hv : Vocabulary.validate ⟨["if"], ["→"]⟩ = .ok () := rfl
  obtain ⟨lx, hlx, -⟩ := Lexicon.compile_represents hv
  have hrun : (Lexicon.compile ⟨["if"], ["→"]⟩).toOption.map (·.tokenize "if→\n 2.5") =
      some (.ok [⟨"if", .keyword, ⟨0, 2, 1, 1⟩⟩, ⟨"→", .operator, ⟨2, 5, 1, 3⟩⟩,
        ⟨"2.5", .float, ⟨7, 10, 2, 2⟩⟩]) := rfl
  have hnone : (Lexicon.compile ⟨["if"], ["→"]⟩).toOption.map (·.tokenize "") =
      some (.ok []) := rfl
  rw [hlx] at hrun hnone
  have hscans : ∀ s ∈ scans, s.Tokenizes := by
    simp only [scans, List.forall_mem_cons]
    refine ⟨?_, ?_, ?_, fun s hs => absurd hs List.not_mem_nil⟩
    · rintro ts ⟨⟩
      exact ⟨_, lx, _, hv, hlx, Option.some.inj hrun⟩
    · rintro ts ⟨⟩
    · rintro ts ⟨⟩
      exact ⟨_, lx, _, hv, hlx, Option.some.inj hnone⟩
  refine ⟨hscans, ?_⟩
  rw [(text_output_loses_nothing scans hscans).1]
  decide +kernel

end FileScan

end Lexis
