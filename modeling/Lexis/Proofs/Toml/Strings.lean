import Lexis.Toml.Printer
import Lexis.Toml.Strings
import Mathlib.Data.List.Infix

/-!
  Lexis.Proofs.Toml.Strings

  A written string is read back, whatever its characters: each of the four notations gives back
  the contents and leaves the text behind the closing quotes. What differs between the notations is
  how a quote inside is kept apart from the quotes at the end.
-/

namespace Lexis.Toml

open Lexis.Text (Reader prepend hexDigit?)

/-! ## Escapes -/

/-- A reader of contents in double quotes, as far as escapes and plain characters go. -/
structure ReadsEscapes (read : Pending → Reader (List Char)) : Prop where
  backslash : ∀ cs, read .none ('\\' :: cs) = read .escape cs
  short : ∀ {c d : Char}, shortEscape? c = some d → ∀ cs,
    read .escape (c :: cs) = prepend d (read .none cs)
  code : ∀ cs, read .escape ('u' :: cs) = read (.hex 3 0) cs
  digit : ∀ {c : Char} {d : Nat}, hexDigit? c = some d → ∀ more value cs,
    read (.hex (more + 1) value) (c :: cs) = read (.hex more (16 * value + d)) cs
  last : ∀ {c e : Char} {d value : Nat}, hexDigit? c = some d →
    scalar? (16 * value + d) = some e → ∀ cs,
    read (.hex 0 value) (c :: cs) = prepend e (read .none cs)
  plain : ∀ {c : Char}, isText c = true → c ≠ '"' → c ≠ '\\' → ∀ cs,
    read .none (c :: cs) = prepend c (read .none cs)

theorem mem_of_shortEscape? {c d : Char} (h : shortEscape? c = some d) :
    c ∈ ['b', 't', 'n', 'f', 'r', '"', '\\'] := by
  unfold shortEscape? at h
  split at h <;> simp_all

theorem basicBody_readsEscapes : ReadsEscapes basicBody where
  backslash cs := by rw [basicBody] <;> simp
  short := by
    intro c d h cs
    have hletter : ∀ e ∈ ['b', 't', 'n', 'f', 'r', '"', '\\'], e ≠ 'u' ∧ e ≠ 'U' := by simp
    obtain ⟨hu, hU⟩ := hletter c (mem_of_shortEscape? h)
    rw [basicBody, if_neg hu, if_neg hU, h]
  code cs := by rw [basicBody, if_pos rfl]
  digit := by
    intro c d h more value cs
    simp only [basicBody, h]
  last := by
    intro c e d value h he cs
    simp only [basicBody, h, he]
  plain := by
    intro c ht hq hb cs
    rw [basicBody, if_neg hq, if_neg hb, if_pos ht]
    · exact fun h => nomatch h
    · exact fun _ _ h => nomatch h

theorem ne_return_of_isText {c : Char} (h : isText c = true) : c ≠ '\r' := by
  rintro rfl
  exact absurd h (by decide)

theorem multiBasicBody_readsEscapes : ReadsEscapes multiBasicBody where
  backslash cs := by rw [multiBasicBody] <;> simp
  short := by
    intro c d h cs
    have hletter : ∀ e ∈ ['b', 't', 'n', 'f', 'r', '"', '\\'],
        e ≠ 'u' ∧ e ≠ 'U' ∧ e ≠ '\n' ∧ ¬isSpace e = true ∧ e ≠ '\r' := by simp [isSpace]
    obtain ⟨hu, hU, hn, hs, hr⟩ := hletter c (mem_of_shortEscape? h)
    rw [multiBasicBody, if_neg hu, if_neg hU, if_neg hn, if_neg hs, h]
    exact fun _ h _ => hr h
  code cs := by rw [multiBasicBody] <;> simp
  digit := by
    intro c d h more value cs
    rw [multiBasicBody.eq_def]
    simp only [h]
  last := by
    intro c e d value h he cs
    rw [multiBasicBody.eq_def]
    simp only [h, he]
  plain := by
    intro c ht hq hb cs
    rw [multiBasicBody, if_neg hb, if_pos (by simp [ht])]
    · exact fun _ h _ => ne_return_of_isText ht h
    · exact fun _ h _ => hq h

theorem hexDigit?_digitChar_toUpper :
    ∀ d < 16, hexDigit? (Nat.digitChar d).toUpper = some d := by decide

theorem scalar?_toNat (c : Char) : scalar? c.toNat = some c := by
  have hvalid : c.toNat.isValidChar := c.valid
  rw [scalar?, if_pos hvalid, Char.ofNat_toNat]

section

variable {read : Pending → Reader (List Char)}

/-- The four digits of a code point are read as the character. -/
theorem ReadsEscapes.read_hexQuad (h : ReadsEscapes read) {c : Char} (hc : c.toNat < 65536)
    (cs : List Char) : read (.hex 3 0) (hexQuad c.toNat ++ cs) = prepend c (read .none cs) := by
  have hdigit := hexDigit?_digitChar_toUpper
  have hvalue : 16 * (16 * (16 * (16 * 0 + c.toNat / 4096) + c.toNat / 256 % 16) +
      c.toNat / 16 % 16) + c.toNat % 16 = c.toNat := by omega
  simp only [hexQuad, List.map_cons, List.map_nil, List.cons_append, List.nil_append]
  rw [h.digit (hdigit _ (by omega)), h.digit (hdigit _ (by omega)), h.digit (hdigit _ (by omega)),
    h.last (hdigit _ (by omega))]
  -- the value of the four digits is the code point
  rw [hvalue, scalar?_toNat]

/-- A character as the writer puts it is read as that character. Quotes, and line ends over several
    lines, are left to the notation. -/
theorem ReadsEscapes.read_escapeChar (h : ReadsEscapes read) {multi : Bool} {c : Char}
    (hq : c ≠ '"') (hn : multi = true → c ≠ '\n') (cs : List Char) :
    read .none (escapeChar multi c ++ cs) = prepend c (read .none cs) := by
  -- a short escape is read by `backslash` and then `short`
  have hshort : ∀ {e d : Char}, shortEscape? e = some d →
      read .none ('\\' :: e :: cs) = prepend d (read .none cs) := by
    intro e d hd
    rw [h.backslash, h.short hd]
  unfold escapeChar
  split_ifs with hb ht hnl hm hf hr hbs hcode
  · exact hb ▸ hshort rfl
  · exact ht ▸ hshort rfl
  · exact absurd hnl (hn hm)
  · exact hnl ▸ hshort rfl
  · exact hf ▸ hshort rfl
  · exact hr ▸ hshort rfl
  · subst hbs
    exact hshort rfl
  · have hsmall : c.toNat < 65536 := by simp at hcode; omega
    rw [List.append_assoc]
    show read .none ('\\' :: 'u' :: (hexQuad c.toNat ++ cs)) = _
    rw [h.backslash, h.code, h.read_hexQuad hsmall]
  · have htext : isText c = true := by
      simp at hcode
      simp [isText, hcode]
    exact h.plain htext hq hbs cs

end

/-! ## Quotes on one line -/

theorem head?_escapeChar_ne_quote (multi : Bool) {c : Char} (hq : c ≠ '"') (cs : List Char) :
    (escapeChar multi c ++ cs).head? ≠ some '"' := by
  unfold escapeChar
  split_ifs <;> simp [hq]

/-- Where quotes are escaped, the contents do not begin with one. -/
theorem head?_escapeBody_ne_quote {multi : Bool} {run : Nat} (h : (multi && run < 2) = false)
    (cs : List Char) : (escapeBody multi run cs).head? ≠ some '"' := by
  cases cs with
  | nil => simp [escapeBody]
  | cons c cs =>
    rw [escapeBody, h, if_neg Bool.false_ne_true]
    split_ifs with hq
    · simp
    · exact head?_escapeChar_ne_quote multi hq _

/-- The first quote behind contents that do not begin with one is not followed by another. -/
theorem append_quote_ne_pair {q : Char} {body rest : List Char} (hbody : body.head? ≠ some q)
    (hrest : rest.head? ≠ some q) (tail : List Char) : body ++ q :: rest ≠ q :: q :: tail := by
  intro h
  match body with
  | [] => exact hrest (by rw [(List.cons.inj h).2]; rfl)
  | a :: body => exact hbody (congrArg some (List.cons.inj h).1)

theorem basicBody_escapeBody (run : Nat) (cs rest : List Char) :
    basicBody .none (escapeBody false run cs ++ '"' :: rest) = some (cs, rest) := by
  induction cs generalizing run with
  | nil =>
    rw [escapeBody, List.nil_append, basicBody, if_pos rfl]
    · exact fun h => nomatch h
    · exact fun _ _ h => nomatch h
  | cons c cs ih =>
    by_cases hq : c = '"'
    · subst hq
      have hbody : escapeBody false run ('"' :: cs) = '\\' :: '"' :: escapeBody false 0 cs := rfl
      rw [hbody, List.cons_append, List.cons_append, basicBody_readsEscapes.backslash,
        basicBody_readsEscapes.short rfl, ih]
      rfl
    · rw [escapeBody, if_neg hq, List.append_assoc,
        basicBody_readsEscapes.read_escapeChar hq (fun h => absurd h Bool.false_ne_true), ih]
      rfl

theorem isText_or_newline {c : Char} (h : isControl c = false) : c = '\n' ∨ isText c = true := by
  simp only [isControl, isText, ne_eq, decide_not, Bool.and_eq_false_imp, Bool.not_eq_eq_eq_not,
    Bool.not_true, decide_eq_false_iff_not, Bool.or_eq_false_iff, Bool.or_eq_true,
    decide_eq_true_eq, Bool.and_eq_true] at h ⊢
  by_cases ht : c = '\t'
  · exact .inr (.inl ht)
  · by_cases hn : c = '\n'
    · exact .inl hn
    · have := h ⟨ht, hn⟩
      exact .inr (.inr (by omega))

theorem literalBody_append {cs : List Char} (htext : ∀ c ∈ cs, isText c = true)
    (hq : '\'' ∉ cs) (rest : List Char) :
    literalBody (cs ++ '\'' :: rest) = some (cs, rest) := by
  induction cs with
  | nil => rfl
  | cons c cs ih =>
    have hc : c ≠ '\'' := fun h => hq (h ▸ List.mem_cons_self)
    have htail := ih (fun d hd => htext d (List.mem_cons_of_mem c hd))
      (fun h => hq (List.mem_cons_of_mem c h))
    rw [List.cons_append, literalBody, if_neg hc, if_pos (htext c List.mem_cons_self), htail]
    rfl

/-! ## Runs of quotes -/

/-- A run is at least so long if the text begins with what is missing of it, or holds all of it. -/
theorem le_longestRun_iff {q : Char} {m run : Nat} {cs : List Char} :
    m ≤ longestRun q run cs ↔ List.replicate (m - run) q <+: cs ∨ List.replicate m q <:+: cs := by
  induction cs generalizing run with
  | nil =>
    simp only [longestRun, List.prefix_nil, List.infix_nil, List.replicate_eq_nil_iff]
    omega
  | cons c cs ih =>
    -- at a quote the run goes on; at any other character it ends and the rest counts anew
    by_cases hc : c = q
    · subst hc
      have hcons : ∀ k, List.replicate k c <+: c :: cs ↔ List.replicate (k - 1) c <+: cs := by
        intro k
        cases k with
        | zero => simp
        | succ k => simp [List.replicate_succ]
      -- the run that begins here only has to make up for what precedes
      have hshort : List.replicate (m - 1) c <+: cs → List.replicate (m - (run + 1)) c <+: cs := by
        intro h
        have hsum : m - (run + 1) + (m - 1 - (m - (run + 1))) = m - 1 := by omega
        rw [← hsum, ← List.replicate_append_replicate] at h
        exact (List.prefix_append _ _).trans h
      rw [longestRun, if_pos rfl, ih, List.infix_cons_iff, hcons, hcons, Nat.sub_sub]
      constructor
      · rintro (h | h)
        · exact .inl h
        · exact .inr (.inr h)
      · rintro (h | h | h)
        · exact .inl h
        · exact .inl (hshort h)
        · exact .inr h
    · have hcons : ∀ k, List.replicate k q <+: c :: cs ↔ k = 0 := by
        intro k
        cases k with
        | zero => simp
        | succ k => simp [List.replicate_succ, Ne.symm hc]
      have htail : m ≤ longestRun q 0 cs ↔ List.replicate m q <:+: cs := by
        rw [ih, Nat.sub_zero, or_iff_right_of_imp List.IsPrefix.isInfix]
      rw [longestRun, if_neg hc, List.infix_cons_iff, hcons, hcons, ← htail]
      omega

theorem longestRun_lt_iff {q : Char} {m : Nat} {cs : List Char} :
    longestRun q 0 cs < m ↔ ¬List.replicate m q <:+: cs := by
  rw [← Nat.not_le, le_longestRun_iff, Nat.sub_zero, or_iff_right_of_imp List.IsPrefix.isInfix]

theorem longestRun_eq_zero_iff {q : Char} {cs : List Char} :
    longestRun q 0 cs = 0 ↔ q ∉ cs := by
  rw [← Nat.lt_one_iff, longestRun_lt_iff, List.replicate_one, List.singleton_infix_iff]

/-! ## Triple quotes -/

/-- A reader of contents in three quotes `q`, as far as quotes go. -/
structure ReadsTriple (q : Char) (read : Reader (List Char)) : Prop where
  close : ∀ cs, read (q :: q :: q :: cs) = some (closeTriple q cs)
  quote : ∀ cs, ¬[q, q] <+: cs → read (q :: cs) = prepend q (read cs)

theorem closeTriple_of_head?_ne {q : Char} {rest : List Char} (h : rest.head? ≠ some q) :
    closeTriple q rest = ([], rest) := by
  match rest with
  | [] => rfl
  | [a] =>
    have ha : a ≠ q := by simpa using h
    simp [closeTriple, ha]
  | a :: b :: rest =>
    have ha : a ≠ q := by simpa using h
    simp [closeTriple, ha]

theorem closeTriple_one {q : Char} {rest : List Char} (h : rest.head? ≠ some q) :
    closeTriple q (q :: rest) = ([q], rest) := by
  match rest with
  | [] => simp [closeTriple]
  | a :: rest =>
    have ha : a ≠ q := by simpa using h
    simp [closeTriple, ha]

theorem closeTriple_two (q : Char) (rest : List Char) :
    closeTriple q (q :: q :: rest) = ([q, q], rest) := by
  simp [closeTriple]

section

variable {q : Char} {read : Reader (List Char)}

theorem ReadsTriple.read_close (h : ReadsTriple q read) {rest : List Char}
    (hrest : rest.head? ≠ some q) : read (q :: q :: q :: rest) = some ([], rest) := by
  rw [h.close, closeTriple_of_head?_ne hrest]

/-- A quote in front of contents that do not begin with two is one more character of the contents.
    One or two quotes at the very end stand before the closing ones, and the reader closes first. -/
theorem ReadsTriple.read_quote (h : ReadsTriple q read) {body cs rest : List Char}
    (hbody : ¬[q, q] <+: body) (hrest : rest.head? ≠ some q)
    (hread : read (body ++ q :: q :: q :: rest) = some (cs, rest)) :
    read (q :: (body ++ q :: q :: q :: rest)) = some (q :: cs, rest) := by
  match body with
  | [] =>
    rw [List.nil_append, h.read_close hrest] at hread
    obtain ⟨rfl, -⟩ := Prod.mk.inj (Option.some.inj hread)
    rw [List.nil_append, h.close, closeTriple_one hrest]
  | [a] =>
    by_cases ha : a = q
    · subst ha
      rw [List.singleton_append, h.close, closeTriple_one hrest] at hread
      obtain ⟨rfl, -⟩ := Prod.mk.inj (Option.some.inj hread)
      rw [List.singleton_append, h.close, closeTriple_two]
    · rw [h.quote _ (by simpa using Ne.symm ha), hread]
      rfl
  | a :: b :: body =>
    rw [h.quote _ (by simpa using hbody), hread]
    rfl

end

theorem multiBasicBody_readsTriple : ReadsTriple '"' (multiBasicBody .none) where
  close cs := by rw [multiBasicBody]
  quote cs h := by
    rw [multiBasicBody]
    · rfl
    · simp
    · rintro tail - rfl
      exact h ⟨tail, rfl⟩

theorem multiLiteralBody_readsTriple : ReadsTriple '\'' multiLiteralBody where
  close cs := by rw [multiLiteralBody]
  quote cs h := by
    rw [multiLiteralBody]
    · rfl
    · simp
    · rintro tail - rfl
      exact h ⟨tail, rfl⟩

/-- After a quote at most one more stands without an escape. -/
theorem escapeBody_not_pair {run : Nat} (h : 1 ≤ run) (cs : List Char) :
    ¬['"', '"'] <+: escapeBody true run cs := by
  rintro ⟨tail, htail⟩
  have hhead : (escapeBody true run cs).head? = some '"' := by
    rw [← htail]
    rfl
  by_cases hrun : run < 2
  · match cs with
    | [] => simp [escapeBody] at hhead
    | c :: cs =>
      by_cases hq : c = '"'
      · have hstep : escapeBody true run (c :: cs) = '"' :: escapeBody true (run + 1) cs := by
          rw [escapeBody, if_pos hq, if_pos (by simpa using hrun)]
        have hsecond : (true && run + 1 < 2) = false := by simp; omega
        refine head?_escapeBody_ne_quote hsecond cs ?_
        rw [hstep] at htail
        rw [← (List.cons.inj htail).2]
        rfl
      · rw [escapeBody, if_neg hq] at hhead
        exact head?_escapeChar_ne_quote true hq _ hhead
  · have hfirst : (true && run < 2) = false := by simpa using hrun
    exact head?_escapeBody_ne_quote hfirst cs hhead

theorem multiBasicBody_escapeBody (run : Nat) (cs : List Char) {rest : List Char}
    (hrest : rest.head? ≠ some '"') :
    multiBasicBody .none (escapeBody true run cs ++ '"' :: '"' :: '"' :: rest) =
      some (cs, rest) := by
  induction cs generalizing run with
  | nil => exact multiBasicBody_readsTriple.read_close hrest
  | cons c cs ih =>
    by_cases hq : c = '"'
    · -- a quote stays as it is after fewer than two, and is escaped after two
      subst hq
      rw [escapeBody, if_pos rfl]
      split_ifs with hrun
      · exact multiBasicBody_readsTriple.read_quote (escapeBody_not_pair (by omega) cs) hrest
          (ih (run + 1))
      · rw [List.cons_append, List.cons_append, multiBasicBody_readsEscapes.backslash,
          multiBasicBody_readsEscapes.short rfl, ih]
        rfl
    · rw [escapeBody, if_neg hq, List.append_assoc]
      by_cases hn : c = '\n'
      · subst hn
        show multiBasicBody .none
          ('\n' :: (escapeBody true 0 cs ++ '"' :: '"' :: '"' :: rest)) = _
        rw [multiBasicBody, ih] <;> simp
      · rw [multiBasicBody_readsEscapes.read_escapeChar hq (fun _ => hn), ih]
        rfl

theorem multiLiteralBody_append {run : Nat} {cs rest : List Char}
    (hcontrol : ∀ c ∈ cs, isControl c = false) (hrun : longestRun '\'' run cs ≤ 2)
    (hrest : rest.head? ≠ some '\'') :
    multiLiteralBody (cs ++ '\'' :: '\'' :: '\'' :: rest) = some (cs, rest) := by
  induction cs generalizing run with
  | nil => exact multiLiteralBody_readsTriple.read_close hrest
  | cons c cs ih =>
    have htail : ∀ c ∈ cs, isControl c = false :=
      fun d hd => hcontrol d (List.mem_cons_of_mem c hd)
    rw [longestRun] at hrun
    split_ifs at hrun with hq
    · subst hq
      refine multiLiteralBody_readsTriple.read_quote ?_ hrest (ih htail hrun)
      -- two more quotes would make a run of three
      rintro ⟨tail, rfl⟩
      have : run + 1 + 1 + 1 ≤ longestRun '\'' (run + 1 + 1 + 1) tail :=
        le_longestRun_iff.mpr (.inl (by simp))
      simp only [List.cons_append, List.nil_append, longestRun, if_true] at hrun
      omega
    · have hc := isText_or_newline (hcontrol c List.mem_cons_self)
      have hr : c ≠ '\r' := by
        rcases hc with rfl | htext
        · decide
        · exact ne_return_of_isText htext
      rw [List.cons_append, multiLiteralBody, if_pos (by simpa using hc),
        ih htail (Nat.le_trans (Nat.le_max_right ..) hrun)]
      · rfl
      · exact fun _ h _ => hr h
      · exact fun _ h _ => hq h

/-! ## All notations -/

theorem newline_not_mem_hexQuad {n : Nat} (h : n < 65536) : '\n' ∉ hexQuad n := by
  have hdigit : ∀ d < 16, (Nat.digitChar d).toUpper ≠ '\n' := by decide
  intro hmem
  obtain ⟨d, hd, hchar⟩ := List.mem_map.mp hmem
  refine hdigit d ?_ hchar
  simp only [List.mem_cons, List.not_mem_nil, or_false] at hd
  omega

theorem newline_not_mem_escapeChar {multi : Bool} {c : Char} (hn : c ≠ '\n') :
    '\n' ∉ escapeChar multi c := by
  unfold escapeChar
  split_ifs with hb ht hf hr hbs hcode
  · decide
  · decide
  · decide
  · decide
  · decide
  · have hsmall : c.toNat < 65536 := by simp at hcode; omega
    have := newline_not_mem_hexQuad hsmall
    simp [this]
  · simpa using Ne.symm hn

theorem newline_mem_of_mem_escapeBody {multi : Bool} {run : Nat} {cs : List Char}
    (h : '\n' ∈ escapeBody multi run cs) : '\n' ∈ cs := by
  induction cs generalizing run with
  | nil => simp [escapeBody] at h
  | cons c cs ih =>
    by_cases hn : c = '\n'
    · exact hn ▸ List.mem_cons_self
    · rw [escapeBody] at h
      split_ifs at h
      · exact List.mem_cons_of_mem c (ih (by simpa using h))
      · exact List.mem_cons_of_mem c (ih (by simpa using h))
      · have htail := (List.mem_append.mp h).resolve_left (newline_not_mem_escapeChar hn)
        exact List.mem_cons_of_mem c (ih htail)

theorem dropFirstNewline_of_not_mem {q : Char} (hn : q ≠ '\n') (hr : q ≠ '\r')
    {body : List Char} (hbody : '\n' ∉ body) (rest : List Char) :
    dropFirstNewline (body ++ q :: rest) = body ++ q :: rest := by
  unfold dropFirstNewline
  split
  next cs heq =>
    match body with
    | [] => exact absurd (List.cons.inj heq).1 hn
    | a :: body => exact absurd (List.cons.inj heq).1 (fun h => hbody (h ▸ List.mem_cons_self))
  next cs heq =>
    match body with
    | [] => exact absurd (List.cons.inj heq).1 hr
    | [a] => exact absurd (List.cons.inj (List.cons.inj heq).2).1 hn
    | a :: b :: body =>
      have hb : b = '\n' := (List.cons.inj (List.cons.inj heq).2).1
      exact absurd (by simp [hb]) hbody
  next => rfl

/-- The line end that is put in front of contents with line ends is the one that is dropped. -/
theorem dropFirstNewline_lead {q : Char} (hn : q ≠ '\n') (hr : q ≠ '\r') {cs body : List Char}
    (hbody : '\n' ∈ body → '\n' ∈ cs) (rest : List Char) :
    dropFirstNewline ((if cs.contains '\n' then ['\n'] else []) ++ (body ++ q :: rest)) =
      body ++ q :: rest := by
  split_ifs with hcs
  · rfl
  · exact dropFirstNewline_of_not_mem hn hr (fun h => hcs (by simpa using hbody h)) rest

theorem of_choose_literal {cs : List Char} (h : Style.choose cs = .literal) :
    (∀ c ∈ cs, isText c = true) ∧ '\'' ∉ cs := by
  simp only [Style.choose] at h
  split_ifs at h with _ hliteral
  simp only [Bool.and_eq_true, Bool.not_eq_true', decide_eq_true_eq] at hliteral
  obtain ⟨⟨hcontrol, hsingles⟩, hnewline⟩ := hliteral
  refine ⟨fun c hc => ?_, longestRun_eq_zero_iff.mp hsingles⟩
  have hnone : isControl c = false := by simpa using List.any_eq_false.mp hcontrol c hc
  refine (isText_or_newline hnone).resolve_left fun hn => ?_
  have : cs.contains '\n' = true := by simpa using hn ▸ hc
  rw [hnewline] at this
  exact absurd this Bool.false_ne_true

theorem of_choose_multiLiteral {cs : List Char} (h : Style.choose cs = .multiLiteral) :
    (∀ c ∈ cs, isControl c = false) ∧ longestRun '\'' 0 cs ≤ 2 := by
  simp only [Style.choose] at h
  split_ifs at h with _ _ _ hliteral
  simp only [Bool.and_eq_true, Bool.not_eq_true', decide_eq_true_eq] at hliteral
  exact ⟨fun c hc => by simpa using List.any_eq_false.mp hliteral.1 c hc, hliteral.2⟩

/-- Every string is read back from what is written for it, up to the text behind its quotes. -/
theorem string?_stringChars (cs : List Char) {rest : List Char} (hd : rest.head? ≠ some '"')
    (hs : rest.head? ≠ some '\'') : string? (stringChars cs ++ rest) = some (cs, rest) := by
  cases hstyle : Style.choose cs with
  | basic =>
    have htext : stringChars cs ++ rest = '"' :: (escapeBody false 0 cs ++ '"' :: rest) := by
      simp [stringChars, hstyle]
    rw [htext, string?, basicBody_escapeBody]
    -- the contents do not turn the opening quote into a triple one
    exact append_quote_ne_pair (head?_escapeBody_ne_quote rfl cs) hd
  | literal =>
    obtain ⟨hplain, hq⟩ := of_choose_literal hstyle
    have htext : stringChars cs ++ rest = '\'' :: (cs ++ '\'' :: rest) := by
      simp [stringChars, hstyle]
    rw [htext, string?, literalBody_append hplain hq]
    exact append_quote_ne_pair (fun h => hq (List.mem_of_head? h)) hs
  | multiBasic =>
    have htext : stringChars cs ++ rest = '"' :: '"' :: '"' ::
        ((if cs.contains '\n' then ['\n'] else []) ++
          (escapeBody true 0 cs ++ '"' :: '"' :: '"' :: rest)) := by
      simp [stringChars, hstyle]
    rw [htext, string?, dropFirstNewline_lead (by decide) (by decide)
      newline_mem_of_mem_escapeBody, multiBasicBody_escapeBody 0 cs hd]
  | multiLiteral =>
    obtain ⟨hcontrol, hrun⟩ := of_choose_multiLiteral hstyle
    have htext : stringChars cs ++ rest = '\'' :: '\'' :: '\'' ::
        ((if cs.contains '\n' then ['\n'] else []) ++
          (cs ++ '\'' :: '\'' :: '\'' :: rest)) := by
      simp [stringChars, hstyle]
    rw [htext, string?, dropFirstNewline_lead (by decide) (by decide) id,
      multiLiteralBody_append hcontrol hrun hs]

end Lexis.Toml
