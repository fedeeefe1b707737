import Lexis.Proofs.Toml.Strings
import Lexis.Toml.Reader

/-!
  Lexis.Proofs.Toml.Values

  Written values are read back: truth values, decimal numbers, strings and arrays of strings. A
  value ends where its line ends, and `Denotes` is what an entry needs to know of one.
-/

namespace Lexis.Toml

open Lexis.Text (Reader)

/-- A written value that stands alone at the end of a line. -/
structure Denotes (text : List Char) (v : Value) : Prop where
  /-- No blank begins it. -/
  head : ∃ c cs, text = c :: cs ∧ isSpace c = false
  /-- It is read up to the line end. -/
  value : ∀ rest, value? depthLimit (text ++ '\n' :: rest) = some (v, '\n' :: rest)

theorem denotes_bool (b : Bool) : Denotes (toString b).toList (.boolean b) := by
  cases b with
  | false => exact ⟨⟨'f', _, rfl, rfl⟩, fun rest => by rw [value?.eq_def]; rfl⟩
  | true => exact ⟨⟨'t', _, rfl, rfl⟩, fun rest => by rw [value?.eq_def]; rfl⟩

/-! ## Decimal numbers -/

theorem ofDigits_concat (base : Nat) (ds : List Nat) (d : Nat) :
    ofDigits base (ds ++ [d]) = base * ofDigits base ds + d := by
  rw [ofDigits, List.foldl_append]
  rfl

/-- The digits that are written for a number. -/
theorem exists_decimal (n : Nat) :
    ∃ d ds, Nat.toDigits 10 n = (d :: ds).map Nat.digitChar ∧ (∀ e ∈ d :: ds, e < 10) ∧
      ofDigits 10 (d :: ds) = n ∧ (d = 0 → ds = []) := by
  -- the last digit is split off, and the digits of `n / 10` stand before it
  induction n using Nat.strongRecOn with
  | ind n ih =>
    by_cases hn : n < 10
    · refine ⟨n, [], Nat.toDigits_of_lt_base hn, by simpa using hn, ?_, fun _ => rfl⟩
      simp [ofDigits]
    · obtain ⟨d, ds, hdigits, hsmall, hvalue, hlead⟩ := ih (n / 10) (by omega)
      refine ⟨d, ds ++ [n % 10], ?_, ?_, ?_, ?_⟩
      · rw [Nat.toDigits_of_base_le (by omega) (by omega), hdigits]
        simp
      · intro e he
        rw [← List.cons_append, List.mem_append] at he
        rcases he with he | he
        · exact hsmall e he
        · have : e = n % 10 := by simpa using he
          omega
      · rw [← List.cons_append, ofDigits_concat, hvalue]
        omega
      · -- a leading zero would make `n / 10` zero
        intro hd
        have hzero : ofDigits 10 (d :: ds) = 0 := by
          rw [hlead hd, hd]
          rfl
        omega

theorem digitIn?_digitChar : ∀ d < 10, digitIn? 10 (Nat.digitChar d) = some d := by decide

theorem isDigit_digitChar : ∀ d < 10, isDigit (Nat.digitChar d) = true := by decide

theorem moreDigits_digits {ds : List Nat} (h : ∀ d ∈ ds, d < 10) (rest : List Char) :
    moreDigits 10 (ds.map Nat.digitChar ++ '\n' :: rest) = (ds, '\n' :: rest) := by
  induction ds with
  | nil =>
    rw [List.map_nil, List.nil_append, moreDigits]
    · rfl
    · exact fun _ _ h => nomatch h
  | cons d ds ih =>
    have hd : d < 10 := h d List.mem_cons_self
    have hunder : ∀ d < 10, Nat.digitChar d ≠ '_' := by decide
    rw [List.map_cons, List.cons_append, moreDigits, digitIn?_digitChar d hd,
      ih fun e he => h e (List.mem_cons_of_mem d he)]
    exact fun _ _ h _ => hunder d hd h

theorem decimalDigits?_digits {d : Nat} {ds : List Nat} (h : ∀ e ∈ d :: ds, e < 10)
    (hlead : d = 0 → ds = []) (rest : List Char) :
    decimalDigits? ((d :: ds).map Nat.digitChar ++ '\n' :: rest) =
      some (d :: ds, '\n' :: rest) := by
  have hd : d < 10 := h d List.mem_cons_self
  by_cases hzero : d = 0
  · rw [hlead hzero, hzero]
    rfl
  · have hne : ∀ d < 10, d ≠ 0 → Nat.digitChar d ≠ '0' := by decide
    rw [List.map_cons, List.cons_append, decimalDigits?, digits?, digitIn?_digitChar d hd,
      Option.map_some, moreDigits_digits fun e he => h e (List.mem_cons_of_mem d he)]
    exact fun _ h => hne d hd hzero (List.cons.inj h).1

/-- Where a fixed number of digits is taken off a number on a line of its own, a digit or the line
    end follows. -/
theorem expect?_of_fixedDigits? {count n : Nat} {ds rest tail : List Char} {c : Char}
    (hds : ∀ d ∈ ds, isDigit d = true) (hc : isDigit c = false) (hn : c ≠ '\n')
    (h : fixedDigits? count (ds ++ '\n' :: rest) = some (n, tail)) : expect? c tail = none := by
  simp only [fixedDigits?, Option.ite_none_right_eq_some, Bool.and_eq_true, decide_eq_true_eq,
    List.all_eq_true, Option.some.injEq, Prod.mk.injEq] at h
  obtain ⟨⟨-, hall⟩, -, rfl⟩ := h
  -- the line end is not among the digits taken
  have hcount : count ≤ ds.length := by
    refine Nat.le_of_not_lt fun hlt => ?_
    have hmem : '\n' ∈ (ds ++ '\n' :: rest).take count := by
      rw [List.mem_take_iff_getElem]
      exact ⟨ds.length, by simp; omega, by simp⟩
    exact absurd (hall '\n' hmem) (by decide)
  rw [List.drop_append_of_le_length hcount]
  cases htail : ds.drop count with
  | nil => exact if_neg fun h => hn h.symm
  | cons d tail =>
    have hd : isDigit d = true := hds d (List.mem_of_mem_drop (htail ▸ List.mem_cons_self))
    refine if_neg fun h => ?_
    rw [h, hc] at hd
    exact absurd hd Bool.false_ne_true

theorem fixedDigits?_of_bounded? {lo hi n : Nat} {cs tail : List Char}
    (h : bounded? lo hi cs = some (n, tail)) : fixedDigits? 2 cs = some (n, tail) := by
  obtain ⟨r, hr, hbound⟩ := Option.bind_eq_some_iff.mp h
  have hsame : some r = some (n, tail) := (Option.ite_none_right_eq_some.mp hbound).2
  rw [hr, hsame]

section

variable {d : Nat} {ds : List Nat}

theorem dateTime?_digits (h : ∀ e ∈ ds, e < 10) (rest : List Char) :
    dateTime? (ds.map Nat.digitChar ++ '\n' :: rest) = none := by
  have hdigit : ∀ c ∈ ds.map Nat.digitChar, isDigit c = true := by
    intro c hc
    obtain ⟨e, he, rfl⟩ := List.mem_map.mp hc
    exact isDigit_digitChar e (h e he)
  have hdate : date? (ds.map Nat.digitChar ++ '\n' :: rest) = none := by
    unfold date?
    cases hyear : fixedDigits? 4 (ds.map Nat.digitChar ++ '\n' :: rest) with
    | none => rfl
    | some r =>
      show (expect? '-' r.2 >>= _) = none
      rw [expect?_of_fixedDigits? hdigit (by decide) (by decide) hyear]
      rfl
  have htime : time? (ds.map Nat.digitChar ++ '\n' :: rest) = none := by
    unfold time?
    cases hhour : bounded? 0 23 (ds.map Nat.digitChar ++ '\n' :: rest) with
    | none => rfl
    | some r =>
      show (expect? ':' r.2 >>= _) = none
      rw [expect?_of_fixedDigits? hdigit (by decide) (by decide) (fixedDigits?_of_bounded? hhour)]
      rfl
  rw [dateTime?, hdate]
  exact htime

theorem sign_digits (hd : d < 10) (cs : List Char) :
    sign (Nat.digitChar d :: cs) = (false, Nat.digitChar d :: cs) := by
  have hsign : ∀ d < 10, Nat.digitChar d ≠ '+' ∧ Nat.digitChar d ≠ '-' := by decide
  rw [sign]
  · exact fun _ h => (hsign d hd).1 (List.cons.inj h).1
  · exact fun _ h => (hsign d hd).2 (List.cons.inj h).1

theorem float?_digits (h : ∀ e ∈ d :: ds, e < 10) (hlead : d = 0 → ds = []) (rest : List Char) :
    float? ((d :: ds).map Nat.digitChar ++ '\n' :: rest) = none := by
  have hd : d < 10 := h d List.mem_cons_self
  have hletter : ∀ d < 10, Nat.digitChar d ≠ 'i' ∧ Nat.digitChar d ≠ 'n' := by decide
  have hdigits := decimalDigits?_digits h hlead rest
  rw [List.map_cons, List.cons_append] at hdigits ⊢
  simp only [float?, sign_digits hd]
  split
  next heq => exact absurd (List.cons.inj heq).1 (hletter d hd).1
  next heq => exact absurd (List.cons.inj heq).1 (hletter d hd).2
  next =>
    rw [hdigits]
    rfl

theorem integer?_digits (h : ∀ e ∈ d :: ds, e < 10) (hlead : d = 0 → ds = [])
    (hfit : ofDigits 10 (d :: ds) ≤ 9223372036854775807) (rest : List Char) :
    integer? ((d :: ds).map Nat.digitChar ++ '\n' :: rest) =
      some ((ofDigits 10 (d :: ds) : Int), '\n' :: rest) := by
  have hd : d < 10 := h d List.mem_cons_self
  have hdigits := decimalDigits?_digits h hlead rest
  rw [List.map_cons, List.cons_append] at hdigits ⊢
  -- no letter of a base comes second
  have hbase : ∀ {c : Char}, isDigit c = false → c ≠ '\n' → ∀ cs,
      Nat.digitChar d :: (ds.map Nat.digitChar ++ '\n' :: rest) ≠ '0' :: c :: cs := by
    intro c hc hn cs heq
    have hsecond := (List.cons.inj heq).2
    match ds with
    | [] => exact hn (List.cons.inj hsecond).1.symm
    | e :: _ =>
      have he := isDigit_digitChar e (h e (by simp))
      rw [(List.cons.inj hsecond).1, hc] at he
      exact absurd he Bool.false_ne_true
  rw [integer?]
  · have hrange : fit? (ofDigits 10 (d :: ds) : Int) = some (ofDigits 10 (d :: ds) : Int) := by
      rw [fit?, if_pos (by omega)]
    simp only [sign_digits hd, hdigits]
    show ((fit? (ofDigits 10 (d :: ds) : Int)).bind fun i => some (i, '\n' :: rest)) = _
    rw [hrange]
    rfl
  · exact hbase (by decide) (by decide)
  · exact hbase (by decide) (by decide)
  · exact hbase (by decide) (by decide)

end

theorem denotes_nat {n : Nat} (h : n ≤ 9223372036854775807) :
    Denotes (toString n).toList (.integer n) := by
  obtain ⟨d, ds, hdigits, hsmall, hvalue, hlead⟩ := exists_decimal n
  have htext : (toString n).toList = (d :: ds).map Nat.digitChar := by
    rw [← hdigits]
    exact Nat.toList_repr
  have hd : d < 10 := hsmall d List.mem_cons_self
  have hmark : ∀ d < 10, isSpace (Nat.digitChar d) = false ∧
      Nat.digitChar d ∉ ['"', '\'', '[', '\x7b', 't', 'f'] := by decide
  obtain ⟨hspace, hmark⟩ := hmark d hd
  refine ⟨⟨_, _, by rw [htext, List.map_cons], hspace⟩, fun rest => ?_⟩
  have hscalar : scalar ((d :: ds).map Nat.digitChar ++ '\n' :: rest) =
      some (.integer n, '\n' :: rest) := by
    rw [scalar, dateTime?_digits hsmall, float?_digits hsmall hlead,
      integer?_digits hsmall hlead (hvalue ▸ h), hvalue]
    rfl
  rw [htext]
  rw [List.map_cons, List.cons_append] at hscalar ⊢
  simp only [List.mem_cons, List.not_mem_nil, or_false, not_or] at hmark
  rw [value?.eq_def]
  simp only [hmark, decide_false, Bool.or_false, Bool.false_eq_true, if_false]
  split
  next heq => exact absurd (List.cons.inj heq).1 (by simp [hmark])
  next heq => exact absurd (List.cons.inj heq).1 (by simp [hmark])
  next => exact hscalar

/-! ## Strings and arrays -/

theorem stringChars_head (cs : List Char) :
    ∃ q tail, stringChars cs = q :: tail ∧ (q = '"' ∨ q = '\'') := by
  unfold stringChars
  cases Style.choose cs with
  | basic => exact ⟨_, _, rfl, .inl rfl⟩
  | literal => exact ⟨_, _, rfl, .inr rfl⟩
  | multiBasic => exact ⟨_, _, rfl, .inl rfl⟩
  | multiLiteral => exact ⟨_, _, rfl, .inr rfl⟩

theorem value?_stringChars (depth : Nat) (s : String) {rest : List Char}
    (hd : rest.head? ≠ some '"') (hs : rest.head? ≠ some '\'') :
    value? depth (stringChars s.toList ++ rest) = some (.string s, rest) := by
  have hstring := string?_stringChars s.toList hd hs
  obtain ⟨q, tail, htext, hq⟩ := stringChars_head s.toList
  rw [htext, List.cons_append] at hstring ⊢
  have hquote : (q = '"' || q = '\'') = true := by simpa using hq
  rw [value?.eq_def]
  simp only [hquote, if_true, hstring, Option.map_some, String.ofList_toList]

theorem denotes_string (s : String) : Denotes (stringChars s.toList) (.string s) := by
  obtain ⟨q, tail, htext, hq⟩ := stringChars_head s.toList
  refine ⟨⟨q, tail, htext, ?_⟩, fun rest => value?_stringChars depthLimit s ?_ ?_⟩
  · rcases hq with rfl | rfl <;> rfl
  · simp
  · simp

/-- Blanks are skipped up to a string or to what separates and closes items. -/
theorem skipLines_mark {c : Char} (h : c ∈ [',', ']', '"', '\'']) (cs : List Char) :
    skipLines false (c :: cs) = c :: cs := by
  have hmark : ∀ c ∈ [',', ']', '"', '\''],
      c ≠ '\n' ∧ isSpace c = false ∧ c ≠ '#' ∧ c ≠ '\r' := by simp [isSpace]
  obtain ⟨hn, hs, hh, hr⟩ := hmark c h
  rw [skipLines]
  · simp [hn, hs, hh]
  · exact fun _ h _ => hr h

theorem skipLines_stringChars (cs rest : List Char) :
    skipLines false (stringChars cs ++ rest) = stringChars cs ++ rest := by
  obtain ⟨q, tail, htext, hq⟩ := stringChars_head cs
  rw [htext, List.cons_append]
  rcases hq with rfl | rfl
  · exact skipLines_mark (by decide) _
  · exact skipLines_mark (by decide) _

theorem itemLine_eq (s : String) :
    itemLine s = '\n' :: ' ' :: ' ' :: ' ' :: ' ' :: (stringChars s.toList ++ [',']) := rfl

theorem skipLines_itemLine (s : String) (rest : List Char) :
    skipLines false (itemLine s ++ rest) = stringChars s.toList ++ ',' :: rest := by
  rw [itemLine_eq]
  simp [skipLines, isSpace, skipLines_stringChars]

theorem items?_stringChars (depth fuel : Nat) (s : String) {rest : List Char}
    (hd : rest.head? ≠ some '"') (hs : rest.head? ≠ some '\'') :
    items? (value? depth) (fuel + 1) (stringChars s.toList ++ rest) =
      match skipLines false rest with
      | ',' :: cs =>
        (items? (value? depth) fuel (skipLines false cs)).map fun r => (.string s :: r.1, r.2)
      | ']' :: cs => some ([.string s], cs)
      | _ => none := by
  have hvalue := value?_stringChars depth s hd hs
  obtain ⟨q, tail, htext, hq⟩ := stringChars_head s.toList
  rw [items?, hvalue]
  · rfl
  · intro cs heq
    rw [htext, List.cons_append] at heq
    have hbracket : q = ']' := (List.cons.inj heq).1
    rcases hq with rfl | rfl
    · exact absurd hbracket (by decide)
    · exact absurd hbracket (by decide)

theorem items?_itemLines (depth : Nat) (ss : List String) {fuel : Nat} (h : ss.length < fuel)
    (rest : List Char) :
    items? (value? depth) fuel (skipLines false (ss.flatMap itemLine ++ '\n' :: ']' :: rest)) =
      some (ss.map .string, rest) := by
  -- every item takes one unit of fuel, and the closing bracket the last one
  induction ss generalizing fuel with
  | nil =>
    obtain ⟨fuel, rfl⟩ : ∃ f, fuel = f + 1 := ⟨fuel - 1, by simp at h; omega⟩
    have hskip : skipLines false ('\n' :: ']' :: rest) = ']' :: rest := by
      rw [skipLines, if_pos rfl, skipLines_mark (by decide)]
      exact fun _ h _ => absurd h (by decide)
    rw [List.flatMap_nil, List.nil_append, hskip, items?]
    rfl
  | cons s ss ih =>
    obtain ⟨fuel, rfl⟩ : ∃ f, fuel = f + 1 := ⟨fuel - 1, by omega⟩
    rw [List.flatMap_cons, List.append_assoc, skipLines_itemLine,
      items?_stringChars depth fuel s (by simp) (by simp), skipLines_mark (by decide)]
    simp only [ih (by simpa using h), Option.map_some, List.map_cons]

theorem length_le_itemLines (ss : List String) : ss.length ≤ (ss.flatMap itemLine).length := by
  induction ss with
  | nil => simp
  | cons s ss ih =>
    rw [List.flatMap_cons, List.length_append, List.length_cons]
    have hline : 0 < (itemLine s).length := by simp [itemLine_eq]
    omega

theorem value?_array (depth : Nat) (text : List Char) :
    value? (depth + 2) ('[' :: text) =
      (items? (value? (depth + 1)) (text.length + 1) (skipLines false text)).map fun r =>
        (.array r.1, r.2) := by
  rw [value?.eq_def]
  simp

theorem denotes_strings (ss : List String) : Denotes (arrayChars ss) (.array (ss.map .string)) := by
  have harray := value?_array 78
  match ss with
  | [] =>
    refine ⟨⟨'[', _, rfl, rfl⟩, fun rest => ?_⟩
    show value? (78 + 2) ('[' :: ']' :: '\n' :: rest) = _
    rw [harray, skipLines_mark (by decide), items?]
    rfl
  | [s] =>
    refine ⟨⟨'[', _, rfl, rfl⟩, fun rest => ?_⟩
    have htext : arrayChars [s] ++ '\n' :: rest =
        '[' :: (stringChars s.toList ++ ']' :: '\n' :: rest) := by
      simp [arrayChars]
    rw [htext, depthLimit, harray, skipLines_stringChars, items?_stringChars _ _ _ (by simp) (by simp),
      skipLines_mark (by decide)]
    rfl
  | s₁ :: s₂ :: ss =>
    refine ⟨⟨'[', _, rfl, rfl⟩, fun rest => ?_⟩
    have htext : arrayChars (s₁ :: s₂ :: ss) ++ '\n' :: rest =
        '[' :: ((s₁ :: s₂ :: ss).flatMap itemLine ++ '\n' :: ']' :: '\n' :: rest) := by
      simp [arrayChars]
    have hlength := length_le_itemLines (s₁ :: s₂ :: ss)
    rw [htext, depthLimit, harray, items?_itemLines]
    · rfl
    · rw [List.length_append]
      omega

end Lexis.Toml
