import Lexis.Json.Printer
import Lexis.Json.Reader
import Mathlib.Tactic.SplitIfs

/-!
  Lexis.Proofs.Json.Scalars

  Written strings and numbers are read back. A string may hold any character: what the printer
  escapes, the reader undoes (`stringBody_escapeChar`), and the closing quote is the first one that
  is not escaped. A number ends where no character follows that could belong to it (`Ends`).
-/

namespace Lexis.Json

open Lexis.Text (Reader prepend prepend_some hexDigit?)

/-! ## Strings -/

theorem hexDigit?_digitChar : ∀ d < 16, hexDigit? (Nat.digitChar d) = some d := by decide

/-- The escape by code point, read digit by digit. -/
theorem stringBody_hexPair {n : Nat} (h : n < 0x20) (rest : List Char) :
    stringBody .none (['\\', 'u', '0', '0'] ++ hexPair n ++ rest) =
      prepend (Char.ofNat n) (stringBody .none rest) := by
  have hzero : hexDigit? '0' = some 0 := by decide
  have hhigh := hexDigit?_digitChar (n / 16) (by omega)
  have hlow := hexDigit?_digitChar (n % 16) (by omega)
  have hvalue : 16 * (n / 16) + n % 16 = n := by omega
  -- A control character is no half of a pair.
  have hhalf : isHighHalf n = false ∧ isLowHalf n = false := by
    simp only [isHighHalf, isLowHalf, Bool.and_eq_false_iff, decide_eq_false_iff_not]
    omega
  simp only [hexPair, List.cons_append, List.nil_append]
  simp [stringBody, hzero, hhigh, hlow, hvalue, hhalf]

/-- A character as it is written inside a string is read as that character. -/
theorem stringBody_escapeChar (c : Char) (rest : List Char) :
    stringBody .none (escapeChar c ++ rest) = prepend c (stringBody .none rest) := by
  unfold escapeChar
  split_ifs with hquote hslash hback hfeed hline hreturn htab hcontrol
  · subst hquote
    rfl
  · subst hslash
    rfl
  · subst hback
    rfl
  · subst hfeed
    rfl
  · subst hline
    rfl
  · subst hreturn
    rfl
  · subst htab
    rfl
  · rw [stringBody_hexPair hcontrol, Char.ofNat_toNat]
  · show stringBody .none (c :: rest) = _
    rw [stringBody, if_neg hquote, if_neg hslash, if_neg hcontrol]

theorem stringBody_escaped (cs rest : List Char) :
    stringBody .none (cs.flatMap escapeChar ++ '"' :: rest) = some (cs, rest) := by
  induction cs with
  | nil => rfl
  | cons c cs ih =>
    rw [List.flatMap_cons, List.append_assoc, stringBody_escapeChar, ih, prepend_some]

/-! ## Digits -/

/-- No digit follows. -/
def NoDigit (rest : List Char) : Prop := ∀ c, rest.head? = some c → c.isDigit = false

theorem ofDigits_toDigits (n : Nat) : ofDigits (Nat.toDigits 10 n) = n :=
  Nat.ofDigitChars_ten_toDigits

theorem digits?_toDigits (n : Nat) {rest : List Char} (h : NoDigit rest) :
    digits? (Nat.toDigits 10 n ++ rest) = some (Nat.toDigits 10 n, rest) := by
  have hall : ∀ c ∈ Nat.toDigits 10 n, c.isDigit = true :=
    fun c hc => Nat.isDigit_of_mem_toDigits (by decide) (by decide) hc
  have htake : rest.takeWhile Char.isDigit = [] := by
    cases rest with
    | nil => rfl
    | cons c rest => rw [List.takeWhile_cons_of_neg (by simp [h c rfl])]
  have hdrop : rest.dropWhile Char.isDigit = rest := by
    cases rest with
    | nil => rfl
    | cons c rest => rw [List.dropWhile_cons_of_neg (by simp [h c rfl])]
  rw [digits?, List.takeWhile_append_of_pos hall, List.dropWhile_append_of_pos hall, htake, hdrop,
    List.append_nil, if_neg]
  simp

/-- A number begins with a digit, and only zero with a zero. -/
theorem exists_digits (n : Nat) :
    ∃ d ds, Nat.toDigits 10 n = d :: ds ∧ d.isDigit = true ∧ (d = '0' → n = 0) := by
  -- The first digit of `n` is the first digit of `n / 10`, down to a single digit.
  induction n using Nat.strongRecOn with
  | ind n ih =>
    by_cases hn : n < 10
    · have hdigit : ∀ d < 10, (Nat.digitChar d).isDigit = true ∧
          (Nat.digitChar d = '0' → d = 0) := by decide
      exact ⟨Nat.digitChar n, [], Nat.toDigits_of_lt_base hn, hdigit n hn⟩
    · obtain ⟨d, ds, hdigits, hd, hzero⟩ := ih (n / 10) (by omega)
      refine ⟨d, ds ++ [Nat.digitChar (n % 10)], ?_, hd, fun h => ?_⟩
      · rw [Nat.toDigits_of_base_le (by omega) (by omega), hdigits]
        rfl
      · have := hzero h
        omega

theorem whole?_toDigits (n : Nat) {rest : List Char} (h : NoDigit rest) :
    whole? (Nat.toDigits 10 n ++ rest) = some (Nat.toDigits 10 n, rest) := by
  have hdigits := digits?_toDigits n h
  obtain ⟨d, ds, htext, -, hzero⟩ := exists_digits n
  by_cases hn : n = 0
  · subst hn
    rw [Nat.toDigits_zero]
    rfl
  · rw [htext, List.cons_append] at hdigits ⊢
    rw [whole?, hdigits]
    intro cs heq
    exact hn (hzero (List.cons.inj heq).1)

/-! ## Numbers -/

/-- Nothing follows that could belong to a number. -/
def Ends (rest : List Char) : Prop :=
  ∀ c, rest.head? = some c → c.isDigit = false ∧ c ≠ '.' ∧ c ≠ 'e' ∧ c ≠ 'E'

theorem Ends.noDigit {rest : List Char} (h : Ends rest) : NoDigit rest := fun c hc => (h c hc).1

/-- The sign of a number as it is written. -/
def signChars (n : Int) : List Char := if n < 0 then ['-'] else []

theorem toList_toString_int (n : Int) :
    (toString n).toList = signChars n ++ Nat.toDigits 10 n.natAbs := by
  cases n with
  | ofNat m =>
    show (Nat.repr m).toList = _
    rw [Nat.toList_repr, signChars, if_neg (by simp)]
    rfl
  | negSucc m =>
    show ("-" ++ Nat.repr (m + 1)).toList = _
    rw [String.toList_append, Nat.toList_repr, signChars, if_pos (Int.negSucc_lt_zero m)]
    rfl

theorem withSign_natAbs (n : Int) : withSign (n < 0) n.natAbs = n := by
  unfold withSign
  split_ifs with h
  · simp only [decide_eq_true_eq] at h
    omega
  · simp only [decide_eq_true_eq] at h
    omega

theorem signed_toString (n : Int) (rest : List Char) :
    signed ((toString n).toList ++ rest) = (decide (n < 0), Nat.toDigits 10 n.natAbs ++ rest) := by
  rw [toList_toString_int, signChars]
  split_ifs with hn
  · rw [decide_eq_true hn]
    rfl
  · rw [decide_eq_false hn, List.nil_append]
    obtain ⟨d, ds, htext, hd, -⟩ := exists_digits n.natAbs
    rw [htext, List.cons_append, signed]
    -- A digit is no sign.
    · rintro cs heq
      exact absurd ((List.cons.inj heq).1 ▸ hd) (by decide)
    · rintro cs heq
      exact absurd ((List.cons.inj heq).1 ▸ hd) (by decide)

/-- A whole number and what follows it, which may be an exponent and is no fraction. -/
theorem number?_toString (n : Int) {rest tail : List Char} {exponent : Option Int}
    (hd : NoDigit rest) (hf : fraction? rest = some ([], rest))
    (he : exponent? rest = some (exponent, tail)) :
    number? ((toString n).toList ++ rest) =
      some (match exponent with | none => .integer n | some e => .decimal n e, tail) := by
  have hwhole := whole?_toDigits n.natAbs hd
  have hvalue := ofDigits_toDigits n.natAbs
  have hsign := withSign_natAbs n
  rw [toList_toString_int, signChars]
  split_ifs with hn
  · have hne : n ≠ 0 := by omega
    rw [decide_eq_true hn] at hsign
    show number? ('-' :: (Nat.toDigits 10 n.natAbs ++ rest)) = _
    cases exponent <;> simp [number?, hwhole, hf, he, hvalue, hsign, hne]
  · rw [decide_eq_false hn] at hsign
    obtain ⟨d, ds, htext, hdigit, -⟩ := exists_digits n.natAbs
    rw [htext, List.cons_append] at hwhole
    rw [htext] at hvalue
    rw [List.nil_append, htext, List.cons_append, number?]
    · cases exponent <;> simp [hwhole, hf, he, hvalue, hsign]
    · intro cs heq
      exact absurd ((List.cons.inj heq).1 ▸ hdigit) (by decide)

theorem number?_integer (n : Int) {rest : List Char} (h : Ends rest) :
    number? ((toString n).toList ++ rest) = some (.integer n, rest) := by
  have hfraction : fraction? rest = some ([], rest) := by
    rw [fraction?]
    rintro cs rfl
    exact (h '.' rfl).2.1 rfl
  have hexponent : exponent? rest = some (none, rest) := by
    cases rest with
    | nil => rfl
    | cons c rest =>
      obtain ⟨-, -, he, hE⟩ := h c rfl
      rw [exponent?, if_neg (by simp [he, hE])]
  exact number?_toString n h.noDigit hfraction hexponent

theorem number?_decimal (m e : Int) {rest : List Char} (h : Ends rest) :
    number? ((toString m).toList ++ 'e' :: ((toString e).toList ++ rest)) =
      some (.decimal m e, rest) := by
  have hletter : NoDigit ('e' :: ((toString e).toList ++ rest)) := by
    intro c hc
    obtain rfl : 'e' = c := Option.some.inj hc
    rfl
  have hexponent : exponent? ('e' :: ((toString e).toList ++ rest)) = some (some e, rest) := by
    have hdigits := digits?_toDigits e.natAbs h.noDigit
    rw [exponent?, if_pos (by decide), signed_toString]
    simp only [hdigits, Option.map_some, ofDigits_toDigits, withSign_natAbs]
  exact number?_toString m hletter rfl hexponent

end Lexis.Json
