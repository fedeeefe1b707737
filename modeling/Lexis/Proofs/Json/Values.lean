import Lexis.Proofs.Json.Scalars

/-!
  Lexis.Proofs.Json.Values

  Reading undoes printing. `Readable depth v` says what a value must satisfy for its text to be read
  as that value again: it nests no deeper than `depth`, and no object of it names a field twice.
  What follows a value is free, as long as a number at its end is not continued. `value?_chars` goes
  by the shape of the value, with the items of an array and the fields of an object as lists of
  their own; `read?_pretty` is the whole text.
-/

namespace Lexis.Json

open Lexis.Text (Reader)

/-- Values whose text is read as the value itself. -/
inductive Readable : Nat → Json → Prop where
  | null {depth : Nat} : Readable depth .null
  | bool {depth : Nat} (b : Bool) : Readable depth (.bool b)
  | integer {depth : Nat} (n : Int) : Readable depth (.integer n)
  | decimal {depth : Nat} (mantissa exponent : Int) : Readable depth (.decimal mantissa exponent)
  | string {depth : Nat} (s : String) : Readable depth (.string s)
  | array {depth : Nat} {items : List Json} (h : ∀ v ∈ items, Readable depth v) :
      Readable (depth + 1) (.array items)
  | object {depth : Nat} {fields : List (String × Json)} (hn : (fields.map Prod.fst).Nodup)
      (h : ∀ f ∈ fields, Readable depth f.2) : Readable (depth + 1) (.object fields)

/-! ## Blanks -/

theorem skipBlanks_newline (level : Nat) (cs : List Char) :
    skipBlanks (newline level ++ cs) = skipBlanks cs := by
  have hblank : ∀ c ∈ newline level, isBlank c = true := by
    intro c hc
    rcases List.mem_cons.mp hc with rfl | hc
    · rfl
    · obtain rfl := List.eq_of_mem_replicate hc
      rfl
  exact List.dropWhile_append_of_pos hblank

theorem skipBlanks_cons {c : Char} (h : isBlank c = false) (cs : List Char) :
    skipBlanks (c :: cs) = c :: cs :=
  List.dropWhile_cons_of_neg (by simp [h])

/-- Blanks before a value do not count. -/
theorem value?_congr (depth : Nat) {cs ds : List Char} (h : skipBlanks cs = skipBlanks ds) :
    value? depth cs = value? depth ds := by
  rw [value?.eq_def, value?.eq_def depth ds]
  simp only [h]

/-! ## The beginning of a value -/

/-- The characters that have a meaning of their own at the beginning of a value or after one. -/
def marks : List Char := ['"', '[', ']', '\x7b', 'n', 't', 'f', ' ', '\n', '\r', '\t']

/-- A number begins with none of the marks. -/
theorem exists_number_head (n : Int) :
    ∃ c cs, (toString n).toList = c :: cs ∧ c ∉ marks := by
  have hmarks : marks.any Char.isDigit = false := by decide
  rw [toList_toString_int, signChars]
  split_ifs with hn
  · exact ⟨'-', _, rfl, by decide⟩
  · obtain ⟨d, ds, htext, hd, -⟩ := exists_digits n.natAbs
    exact ⟨d, ds, htext, fun hmem => List.any_eq_false.mp hmarks d hmem hd⟩

theorem isBlank_eq_false_of_not_mem_marks {c : Char} (h : c ∉ marks) : isBlank c = false := by
  simp only [marks, List.mem_cons, List.not_mem_nil, or_false, not_or] at h
  simp [isBlank, h]

/-- A value begins neither with a blank nor with a closing bracket. -/
theorem exists_head (level : Nat) (v : Json) :
    ∃ c cs, chars level v = c :: cs ∧ isBlank c = false ∧ c ≠ ']' := by
  have hnumber : ∀ (n : Int) (rest : List Char),
      ∃ c cs, (toString n).toList ++ rest = c :: cs ∧ isBlank c = false ∧ c ≠ ']' := by
    intro n rest
    obtain ⟨c, cs, htext, hc⟩ := exists_number_head n
    refine ⟨c, cs ++ rest, by rw [htext]; rfl, isBlank_eq_false_of_not_mem_marks hc, ?_⟩
    rintro rfl
    exact hc (by decide)
  cases v with
  | null => exact ⟨_, _, rfl, rfl, by decide⟩
  | bool b => cases b <;> exact ⟨_, _, rfl, rfl, by decide⟩
  | integer n =>
    rw [chars, ← List.append_nil (toString n).toList]
    exact hnumber n []
  | decimal m e =>
    rw [chars]
    exact hnumber m _
  | string s => exact ⟨'"', _, by rw [chars]; rfl, rfl, by decide⟩
  | array items =>
    cases items with
    | nil => exact ⟨'[', _, by rw [chars], rfl, by decide⟩
    | cons v vs => exact ⟨'[', _, by rw [chars]; rfl, rfl, by decide⟩
  | object fields =>
    cases fields with
    | nil => exact ⟨'\x7b', _, by rw [chars], rfl, by decide⟩
    | cons f fs => exact ⟨'\x7b', _, by rw [chars]; rfl, rfl, by decide⟩

/-! ## A value by its first character -/

theorem value?_quote (depth : Nat) (s : String) (rest : List Char) :
    value? depth (quote s ++ rest) = some (.string s, rest) := by
  have hbody := stringBody_escaped s.toList rest
  have htext : quote s ++ rest = '"' :: (s.toList.flatMap escapeChar ++ '"' :: rest) := by
    simp [quote]
  rw [htext, value?.eq_def]
  simp only [skipBlanks_cons (show isBlank '"' = false from rfl), if_true, hbody, Option.map_some,
    String.ofList_toList]

theorem value?_number (depth : Nat) {c : Char} (h : c ∉ marks) (cs : List Char) :
    value? depth (c :: cs) = number? (c :: cs) := by
  have hblank := isBlank_eq_false_of_not_mem_marks h
  simp only [marks, List.mem_cons, List.not_mem_nil, or_false, not_or] at h
  obtain ⟨hquote, hopen, -, hbrace, hn, ht, hf, -⟩ := h
  rw [value?.eq_def]
  simp only [skipBlanks_cons hblank, if_neg hquote, if_neg hopen, if_neg hbrace]
  split
  next heq => exact absurd (List.cons.inj heq).1 hn
  next heq => exact absurd (List.cons.inj heq).1 ht
  next heq => exact absurd (List.cons.inj heq).1 hf
  next => rfl

theorem value?_array {depth : Nat} {cs : List Char} (h : (skipBlanks cs).head? ≠ some ']') :
    value? (depth + 1) ('[' :: cs) =
      (items? (value? depth) (cs.length + 1) cs).map fun r => (.array r.1, r.2) := by
  rw [value?.eq_def]
  simp only [skipBlanks_cons (show isBlank '[' = false from rfl), if_true,
    if_neg (show '[' ≠ '"' by decide)]
  split
  next heq => cases heq
  next heq _ => exact absurd (congrArg List.head? heq) h
  next heq _ =>
    cases heq
    rfl

theorem value?_object {depth : Nat} {cs : List Char} (h : (skipBlanks cs).head? ≠ some '\x7d') :
    value? (depth + 1) ('\x7b' :: cs) =
      (fields? (value? depth) (cs.length + 1) [] cs).map fun r => (.object r.1, r.2) := by
  rw [value?.eq_def]
  simp only [skipBlanks_cons (show isBlank '\x7b' = false from rfl), if_true,
    if_neg (show '\x7b' ≠ '"' by decide), if_neg (show '\x7b' ≠ '[' by decide)]
  split
  next heq => cases heq
  next heq _ => exact absurd (congrArg List.head? heq) h
  next heq _ =>
    cases heq
    rfl

/-! ## Items and fields -/

theorem ends_comma (cs : List Char) : Ends (',' :: cs) := by
  intro c hc
  obtain rfl : ',' = c := Option.some.inj hc
  decide

theorem ends_newline (level : Nat) (cs : List Char) : Ends (newline level ++ cs) := by
  intro c hc
  obtain rfl : '\n' = c := Option.some.inj hc
  decide

/-- A reader gives a value back from its text, on whatever level it was printed. -/
def ReadsBack (read : Reader Json) (v : Json) : Prop :=
  ∀ level rest, Ends rest → read (chars level v ++ rest) = some (v, rest)

variable {depth : Nat}

theorem itemChars_cons (level : Nat) (v : Json) (vs : List Json) (tail : List Char) :
    itemChars level (v :: vs) ++ tail =
      ',' :: (newline level ++ (chars level v ++ (itemChars level vs ++ tail))) := by
  simp [itemChars]

theorem items?_itemChars {v : Json} {vs : List Json} (h : ∀ w ∈ v :: vs, ReadsBack (value? depth) w)
    {fuel : Nat} (hfuel : vs.length < fuel) (level : Nat) (rest : List Char) :
    items? (value? depth) fuel (newline (level + 1) ++ (chars (level + 1) v ++
      (itemChars (level + 1) vs ++ (newline level ++ ']' :: rest)))) = some (v :: vs, rest) := by
  have hread := h v List.mem_cons_self (level + 1)
  -- Every item takes one unit of fuel.
  induction vs generalizing v fuel with
  | nil =>
    obtain ⟨fuel, rfl⟩ : ∃ f, fuel = f + 1 := ⟨fuel - 1, by simp at hfuel; omega⟩
    rw [items?, value?_congr depth (skipBlanks_newline _ _), itemChars, List.nil_append,
      hread _ (ends_newline _ _)]
    simp only [Option.bind_eq_bind, Option.bind_some, skipBlanks_newline,
      skipBlanks_cons (show isBlank ']' = false from rfl)]
    rfl
  | cons w ws ih =>
    obtain ⟨fuel, rfl⟩ : ∃ f, fuel = f + 1 := ⟨fuel - 1, by omega⟩
    have hws : ws.length < fuel := by simpa using hfuel
    have hnext := ih (fun x hx => h x (List.mem_cons_of_mem v hx)) hws (h w (by simp) (level + 1))
    rw [items?, value?_congr depth (skipBlanks_newline _ _), itemChars_cons, hread _ (ends_comma _)]
    simp only [Option.bind_eq_bind, Option.bind_some,
      skipBlanks_cons (show isBlank ',' = false from rfl), hnext, Option.map_some]

/-- A field that is new goes to the end. -/
theorem setField_of_notMem {name : String} {fields : List (String × Json)}
    (h : name ∉ fields.map Prod.fst) (v : Json) :
    setField name v fields = fields ++ [(name, v)] := by
  induction fields with
  | nil => rfl
  | cons f fs ih =>
    rw [List.map_cons, List.mem_cons, not_or] at h
    rw [setField, if_neg (Ne.symm h.1), ih h.2]
    rfl

theorem notMem_of_nodup_append {acc fs : List (String × Json)} {k : String} {v : Json}
    (h : ((acc ++ (k, v) :: fs).map Prod.fst).Nodup) : k ∉ acc.map Prod.fst := by
  rw [List.map_append, List.nodup_append] at h
  exact fun hmem => h.2.2 k hmem k List.mem_cons_self rfl

theorem fieldChars_cons (level : Nat) (k : String) (v : Json) (fs : List (String × Json))
    (tail : List Char) :
    fieldChars level ((k, v) :: fs) ++ tail = ',' :: (newline level ++ (quote k ++
      ':' :: ' ' :: (chars level v ++ (fieldChars level fs ++ tail)))) := by
  simp [fieldChars]

/-- The name of a field and its value, up to what follows the value. -/
theorem fields?_field {k : String} {v : Json} (h : ReadsBack (value? depth) v) (fuel : Nat)
    (fields : List (String × Json)) (level : Nat) {rest : List Char} (hrest : Ends rest) :
    fields? (value? depth) (fuel + 1) fields (newline level ++ (quote k ++
      ':' :: ' ' :: (chars level v ++ rest))) =
      match skipBlanks rest with
      | ',' :: cs => fields? (value? depth) fuel (setField k v fields) cs
      | '\x7d' :: cs => some (setField k v fields, cs)
      | _ => none := by
  have hname : quote k ++ ':' :: ' ' :: (chars level v ++ rest) =
      '"' :: (k.toList.flatMap escapeChar ++ '"' :: ':' :: ' ' :: (chars level v ++ rest)) := by
    simp [quote]
  have hvalue : value? depth (' ' :: (chars level v ++ rest)) = some (v, rest) := by
    rw [← h level rest hrest]
    exact value?_congr depth (List.dropWhile_cons_of_pos rfl)
  rw [fields?, skipBlanks_newline, hname, skipBlanks_cons (show isBlank '"' = false from rfl)]
  simp only [stringBody_escaped, Option.bind_eq_bind, Option.bind_some,
    skipBlanks_cons (show isBlank ':' = false from rfl), hvalue, String.ofList_toList]
  rfl

theorem fields?_fieldChars {acc fs : List (String × Json)} {k : String} {v : Json}
    (hn : ((acc ++ (k, v) :: fs).map Prod.fst).Nodup)
    (h : ∀ f ∈ (k, v) :: fs, ReadsBack (value? depth) f.2) {fuel : Nat} (hfuel : fs.length < fuel)
    (level : Nat) (rest : List Char) :
    fields? (value? depth) fuel acc (newline (level + 1) ++ (quote k ++
      ':' :: ' ' :: (chars (level + 1) v ++ (fieldChars (level + 1) fs ++
        (newline level ++ '\x7d' :: rest))))) = some (acc ++ (k, v) :: fs, rest) := by
  -- The fields read so far are `acc`; the next one has a name that none of them has.
  induction fs generalizing acc k v fuel with
  | nil =>
    obtain ⟨fuel, rfl⟩ : ∃ f, fuel = f + 1 := ⟨fuel - 1, by simp at hfuel; omega⟩
    have hread : ReadsBack (value? depth) v := h (k, v) List.mem_cons_self
    rw [fieldChars, List.nil_append, fields?_field hread _ _ _ (ends_newline _ _),
      skipBlanks_newline, skipBlanks_cons (show isBlank '\x7d' = false from rfl),
      setField_of_notMem (notMem_of_nodup_append hn)]
    rfl
  | cons f fs ih =>
    obtain ⟨k', v'⟩ := f
    obtain ⟨fuel, rfl⟩ : ∃ f, fuel = f + 1 := ⟨fuel - 1, by omega⟩
    have hread : ReadsBack (value? depth) v := h (k, v) List.mem_cons_self
    have hacc : acc ++ (k, v) :: (k', v') :: fs = (acc ++ [(k, v)]) ++ (k', v') :: fs := by simp
    rw [fieldChars_cons, fields?_field hread _ _ _ (ends_comma _),
      skipBlanks_cons (show isBlank ',' = false from rfl),
      setField_of_notMem (notMem_of_nodup_append hn), hacc]
    rw [hacc] at hn
    exact ih hn (fun f hf => h f (List.mem_cons_of_mem _ hf)) (by simpa using hfuel)

/-! ## Values -/

theorem length_le_itemChars (level : Nat) (vs : List Json) :
    vs.length ≤ (itemChars level vs).length := by
  induction vs with
  | nil => simp
  | cons v vs ih =>
    have := congrArg List.length (itemChars_cons level v vs [])
    simp only [List.append_nil, List.length_cons, List.length_append] at this
    rw [List.length_cons]
    omega

theorem length_le_fieldChars (level : Nat) (fs : List (String × Json)) :
    fs.length ≤ (fieldChars level fs).length := by
  induction fs with
  | nil => simp
  | cons f fs ih =>
    obtain ⟨k, v⟩ := f
    have := congrArg List.length (fieldChars_cons level k v fs [])
    simp only [List.append_nil, List.length_cons, List.length_append] at this
    rw [List.length_cons]
    omega

/-- Reading undoes printing. -/
theorem value?_chars {v : Json} (h : Readable depth v) : ReadsBack (value? depth) v := by
  induction h with
  | null =>
    intro level rest hrest
    rw [value?.eq_def]
    rfl
  | bool b =>
    intro level rest hrest
    rw [value?.eq_def]
    cases b <;> rfl
  | integer n =>
    intro level rest hrest
    have hnumber := number?_integer n hrest
    obtain ⟨c, cs, htext, hc⟩ := exists_number_head n
    rw [chars]
    rw [htext, List.cons_append] at hnumber ⊢
    rw [value?_number _ hc, hnumber]
  | decimal m e =>
    intro level rest hrest
    have hnumber := number?_decimal m e hrest
    obtain ⟨c, cs, htext, hc⟩ := exists_number_head m
    rw [chars, List.append_assoc, List.cons_append]
    rw [htext, List.cons_append] at hnumber ⊢
    rw [value?_number _ hc, hnumber]
  | string s =>
    intro level rest hrest
    rw [chars, value?_quote]
  | @array depth items h ih =>
    intro level rest hrest
    match items with
    | [] =>
      rw [chars, value?.eq_def]
      rfl
    | v :: vs =>
      have htext : chars level (.array (v :: vs)) ++ rest =
          '[' :: (newline (level + 1) ++ (chars (level + 1) v ++
            (itemChars (level + 1) vs ++ (newline level ++ ']' :: rest)))) := by
        simp [chars]
      have hlen := length_le_itemChars (level + 1) vs
      rw [htext, value?_array, items?_itemChars ih]
      · rfl
      · simp only [List.length_append]
        omega
      · rw [skipBlanks_newline]
        obtain ⟨c, cs, hc, hblank, hne⟩ := exists_head (level + 1) v
        rw [hc, List.cons_append, skipBlanks_cons hblank]
        simpa using hne
  | @object depth fields hn h ih =>
    intro level rest hrest
    match fields with
    | [] =>
      rw [chars, value?.eq_def]
      rfl
    | (k, v) :: fs =>
      have htext : chars level (.object ((k, v) :: fs)) ++ rest =
          '\x7b' :: (newline (level + 1) ++ (quote k ++ ':' :: ' ' :: (chars (level + 1) v ++
            (fieldChars (level + 1) fs ++ (newline level ++ '\x7d' :: rest))))) := by
        simp [chars]
      have hlen := length_le_fieldChars (level + 1) fs
      rw [htext, value?_object, fields?_fieldChars hn ih]
      · rfl
      · simp only [List.length_append, List.length_cons]
        omega
      · rw [skipBlanks_newline]
        simp [quote, skipBlanks, isBlank]

theorem read?_pretty {v : Json} (h : Readable depthLimit v) : read? v.pretty = some v := by
  have hvalue := value?_chars h 0 [] (by simp [Ends])
  rw [List.append_nil] at hvalue
  rw [read?, pretty, String.toList_ofList, hvalue]
  rfl

end Lexis.Json
