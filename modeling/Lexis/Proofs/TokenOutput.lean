import Lexis.Proofs.Json.Values
import Lexis.Report.FileScan
import Mathlib.Data.List.Induction
import Mathlib.Data.List.Nodup

/-!
  Lexis.Proofs.TokenOutput

  The JSON that is shown for scanned inputs can be read again, and gives the tokens it was made of.
  There are three parts to this. A token is read back from its value (`ofJson?_toJson`), as long as
  the numbers of its span have the widths they are read with. What is shown nests four levels deep
  and names no field twice, so its text is read as the value that was printed (`read?_pretty`). And
  the table of tokens by name is followed scan by scan: `Tabulates` says what it holds after some
  scans, and `tabulates_byName` is the whole list.
-/

namespace Lexis

/-! ## Tokens -/

namespace Span

/-- The numbers of a span have the widths of its fields: 64 bits for an offset, 32 for a line and
    for a column. -/
def Fits (s : Span) : Prop :=
  s.start < offsetLimit ∧ s.stop < offsetLimit ∧ s.line < lineLimit ∧ s.column < lineLimit

instance : DecidablePred Fits := fun _ => inferInstanceAs (Decidable (_ ∧ _ ∧ _ ∧ _))

theorem ofJson?_toJson {s : Span} (h : s.Fits) : ofJson? s.toJson = some s := by
  obtain ⟨hstart, hstop, hline, hcolumn⟩ := h
  have hfields : s.toJson.record? ["start", "end", "line", "column"] =
      some [some (.ofNat s.start), some (.ofNat s.stop), some (.ofNat s.line),
        some (.ofNat s.column)] := rfl
  have hnat : ∀ {n limit : Nat}, n < limit → (Json.ofNat n).natBelow? limit = some n :=
    fun hlt => if_pos hlt
  simp only [ofJson?, hfields, hnat hstart, hnat hstop, hnat hline, hnat hcolumn,
    Option.bind_eq_bind, Option.bind_some, Option.pure_def]

theorem readable_toJson (s : Span) (depth : Nat) : Json.Readable (depth + 1) s.toJson := by
  apply Json.Readable.object
  · show ["start", "end", "line", "column"].Nodup
    decide
  · simp only [List.forall_mem_cons, Json.ofNat]
    exact ⟨.integer _, .integer _, .integer _, .integer _, fun _ h => absurd h List.not_mem_nil⟩

end Span

namespace Token

theorem ofJson?_toJson {t : Token} (h : t.span.Fits) : ofJson? t.toJson = some t := by
  have hfields : t.toJson.record? ["value", "kind", "span"] =
      some [some (.string t.value), some (.string t.kind.name), some t.span.toJson] := rfl
  simp only [ofJson?, hfields, Json.string?, Json.choice?, TokenKind.ofName?_name,
    Span.ofJson?_toJson h, Option.bind_eq_bind, Option.bind_some, Option.pure_def]

theorem readable_toJson (t : Token) (depth : Nat) : Json.Readable (depth + 2) t.toJson := by
  apply Json.Readable.object
  · show ["value", "kind", "span"].Nodup
    decide
  · simp only [List.forall_mem_cons]
    exact ⟨.string _, .string _, t.span.readable_toJson depth,
      fun _ h => absurd h List.not_mem_nil⟩

end Token

namespace FileScan

/-- A value is an array whose items are read as these tokens, one by one. -/
def DecodesTo (v : Json) (ts : List Token) : Prop :=
  ∃ items, v = .array items ∧ items.mapM Token.ofJson? = some ts

theorem tokensJson_decodesTo {ts : List Token} (h : ∀ t ∈ ts, t.span.Fits) :
    DecodesTo (tokensJson ts) ts := by
  refine ⟨_, rfl, ?_⟩
  induction ts with
  | nil => rfl
  | cons t ts ih =>
    have hts := ih fun x hx => h x (List.mem_cons_of_mem t hx)
    rw [List.map_cons, List.mapM_cons, Token.ofJson?_toJson (h t List.mem_cons_self), hts]
    rfl

theorem readable_tokensJson (ts : List Token) (depth : Nat) :
    Json.Readable (depth + 3) (tokensJson ts) := by
  apply Json.Readable.array
  intro v hv
  obtain ⟨t, -, rfl⟩ := List.mem_map.mp hv
  exact t.readable_toJson depth

/-! ## Names -/

/-- The names of the scans that succeeded, each once, in the order in which they first did. -/
def namesOf (scans : List FileScan) : List String :=
  ((scans.filter (·.tokens?.isSome)).map (·.name)).eraseDups

/-- The tokens of the last scan of a name that succeeded. -/
def lastTokens? (scans : List FileScan) (name : String) : Option (List Token) :=
  ((scans.filter (·.name = name)).filterMap tokens?).getLast?

variable {scans : List FileScan} {s : FileScan} {ts : List Token}

theorem namesOf_concat_of_none (h : s.tokens? = none) : namesOf (scans ++ [s]) = namesOf scans := by
  have hs : [s].filter (·.tokens?.isSome) = [] := by simp [h]
  rw [namesOf, List.filter_append, hs, List.append_nil, namesOf]

/-- A further success adds its name, unless the name is there. -/
theorem namesOf_concat_of_some (h : s.tokens? = some ts) :
    namesOf (scans ++ [s]) =
      if s.name ∈ namesOf scans then namesOf scans else namesOf scans ++ [s.name] := by
  have hs : [s].filter (·.tokens?.isSome) = [s] := by simp [h]
  simp only [namesOf, List.filter_append, hs, List.map_append, List.map_cons, List.map_nil,
    List.eraseDups_append, List.mem_eraseDups]
  split_ifs with hmem
  · simp [List.removeAll, hmem]
  · simp [List.removeAll, hmem, List.eraseDups_cons]

theorem lastTokens?_concat_of_none (h : s.tokens? = none) (name : String) :
    lastTokens? (scans ++ [s]) name = lastTokens? scans name := by
  by_cases hname : s.name = name <;> simp [lastTokens?, h, hname]

/-- A further success counts for its own name, and for no other. -/
theorem lastTokens?_concat_of_some (h : s.tokens? = some ts) (name : String) :
    lastTokens? (scans ++ [s]) name =
      if s.name = name then some ts else lastTokens? scans name := by
  by_cases hname : s.name = name <;> simp [lastTokens?, h, hname]

/-! ## Tables -/

section Put

variable {α : Type} {entries : List (String × α)} {key : String} {value : α}

/-- A key that is there keeps its place; a new one goes to the end. -/
theorem map_fst_put : (put entries key value).map Prod.fst =
    if key ∈ entries.map Prod.fst then entries.map Prod.fst
    else entries.map Prod.fst ++ [key] := by
  have hany : entries.any (·.1 = key) = true ↔ key ∈ entries.map Prod.fst := by
    simp
  unfold put
  split_ifs with h hmem hmem
  · rw [List.map_map]
    apply List.map_congr_left
    intro p _
    show (if p.1 = key then (key, value) else p).1 = p.1
    split_ifs with hp
    · exact hp.symm
    · rfl
  · exact absurd (hany.mp h) hmem
  · exact absurd (hany.mpr hmem) h
  · rw [List.map_append]
    rfl

/-- What is in the table afterwards is the new entry, or an old one of another key. -/
theorem eq_or_mem_of_mem_put {p : String × α} (h : p ∈ put entries key value) :
    p = (key, value) ∨ p.1 ≠ key ∧ p ∈ entries := by
  unfold put at h
  split_ifs at h with hany
  · obtain ⟨q, hq, rfl⟩ := List.mem_map.mp h
    split_ifs with hkey
    · exact Or.inl rfl
    · exact Or.inr ⟨hkey, hq⟩
  · rcases List.mem_append.mp h with hp | hp
    · refine Or.inr ⟨fun hkey => hany ?_, hp⟩
      exact List.any_eq_true.mpr ⟨p, hp, by simp [hkey]⟩
    · exact Or.inl (List.mem_singleton.mp hp)

end Put

theorem byName_concat_of_none (h : s.tokens? = none) : byName (scans ++ [s]) = byName scans := by
  simp only [byName, List.foldl_append, List.foldl_cons, List.foldl_nil, h]

theorem byName_concat_of_some (h : s.tokens? = some ts) :
    byName (scans ++ [s]) = put (byName scans) s.name ts := by
  simp only [byName, List.foldl_append, List.foldl_cons, List.foldl_nil, h]

/-- What a table of tokens by name holds after some scans. -/
structure Tabulates (scans : List FileScan) (entries : List (String × List Token)) : Prop where
  /-- The names are those of the scans that succeeded, in the order of their first success. -/
  names : entries.map Prod.fst = namesOf scans
  /-- No name is there twice. -/
  nodup : (entries.map Prod.fst).Nodup
  /-- Every name has the tokens of its last success. -/
  last : ∀ p ∈ entries, lastTokens? scans p.1 = some p.2

namespace Tabulates

variable {entries : List (String × List Token)}

theorem skip (h : Tabulates scans entries) (hs : s.tokens? = none) :
    Tabulates (scans ++ [s]) entries where
  names := by rw [h.names, namesOf_concat_of_none hs]
  nodup := h.nodup
  last p hp := by rw [lastTokens?_concat_of_none hs, h.last p hp]

theorem put (h : Tabulates scans entries) (hs : s.tokens? = some ts) :
    Tabulates (scans ++ [s]) (FileScan.put entries s.name ts) where
  names := by rw [map_fst_put, h.names, namesOf_concat_of_some hs]
  nodup := by
    rw [map_fst_put]
    split_ifs with hmem
    · exact h.nodup
    · rw [← List.concat_eq_append]
      exact List.Nodup.concat hmem h.nodup
  last p hp := by
    rw [lastTokens?_concat_of_some hs]
    rcases eq_or_mem_of_mem_put hp with rfl | ⟨hne, hmem⟩
    · rw [if_pos rfl]
    · rw [if_neg (Ne.symm hne), h.last p hmem]

end Tabulates

theorem tabulates_byName (scans : List FileScan) : Tabulates scans (byName scans) := by
  -- The table grows at the end of the list of scans, so the induction is from there.
  induction scans using List.reverseRecOn with
  | nil => exact ⟨rfl, List.nodup_nil, fun p hp => absurd hp List.not_mem_nil⟩
  | append_singleton scans s ih =>
    cases hs : s.tokens? with
    | none =>
      rw [byName_concat_of_none hs]
      exact ih.skip hs
    | some ts =>
      rw [byName_concat_of_some hs]
      exact ih.put hs

/-- The tokens of a name are those of one of the scans. -/
theorem exists_of_lastTokens? {name : String} (h : lastTokens? scans name = some ts) :
    ∃ s ∈ scans, s.tokens? = some ts := by
  obtain ⟨s, hs, htokens⟩ := List.mem_filterMap.mp (List.mem_of_getLast? h)
  exact ⟨s, (List.mem_filter.mp hs).1, htokens⟩

/-! ## The output -/

theorem read?_renderJson_single (h : s.tokens? = some ts) :
    Json.read? (renderJson [s]) = some (tokensJson ts) := by
  simp only [renderJson, h]
  exact Json.read?_pretty (readable_tokensJson ts 124)

theorem read?_renderJson_several (h : scans.length ≠ 1) :
    Json.read? (renderJson scans) =
      some (.object ((byName scans).map fun p => (p.1, tokensJson p.2))) := by
  have hrender : renderJson scans =
      (Json.object ((byName scans).map fun p => (p.1, tokensJson p.2))).pretty := by
    unfold renderJson
    split
    · exact absurd rfl h
    · rfl
  rw [hrender]
  apply Json.read?_pretty
  show Json.Readable (126 + 1) _
  apply Json.Readable.object
  · rw [List.map_map]
    exact (tabulates_byName scans).nodup
  · intro f hf
    obtain ⟨p, -, rfl⟩ := List.mem_map.mp hf
    exact readable_tokensJson p.2 123

/-- What is shown as JSON decodes to the tokens of the scans: a single success as an array of its
    tokens, and any other number of scans as an object with an array for each name that succeeded,
    in the order of first successes and with the tokens of the last one. A single failure shows
    nothing. The spans are such that their numbers fit the fields that hold them. -/
theorem token_output_decodes (scans : List FileScan)
    (hfit : ∀ s ∈ scans, ∀ ts, s.tokens? = some ts → ∀ t ∈ ts, t.span.Fits) :
    (∀ s ts, scans = [s] → s.tokens? = some ts →
      ∃ v, Json.read? (renderJson scans) = some v ∧ DecodesTo v ts) ∧
    (∀ s, scans = [s] → s.tokens? = none → renderJson scans = "") ∧
    (scans.length ≠ 1 → ∃ fields, Json.read? (renderJson scans) = some (.object fields) ∧
      fields.map Prod.fst = namesOf scans ∧
      ∀ f ∈ fields, ∃ ts, lastTokens? scans f.1 = some ts ∧ DecodesTo f.2 ts) := by
  refine ⟨?_, ?_, ?_⟩
  · rintro s ts rfl hs
    have hts := hfit s List.mem_cons_self ts hs
    exact ⟨_, read?_renderJson_single hs, tokensJson_decodesTo hts⟩
  · rintro s rfl hs
    simp only [renderJson, hs]
  · intro hlength
    have htable := tabulates_byName scans
    refine ⟨_, read?_renderJson_several hlength, ?_, ?_⟩
    · rw [List.map_map, ← htable.names]
      rfl
    · intro f hf
      obtain ⟨p, hp, rfl⟩ := List.mem_map.mp hf
      have hlast := htable.last p hp
      obtain ⟨s, hs, htokens⟩ := exists_of_lastTokens? hlast
      exact ⟨p.2, hlast, tokensJson_decodesTo (hfit s hs p.2 htokens)⟩

/-- Two files of the same name and one that is missing: the name is shown once, with the tokens of
    the second file. -/
theorem token_output_decodes_repeated_name :
    let t : Token := ⟨"a", .word, ⟨0, 1, 1, 1⟩⟩
    let u : Token := ⟨"\"\\\x01", .operator, ⟨4, 7, 2, 2⟩⟩
    let scans : List FileScan := [⟨"x\n", none, .ok [t]⟩,
      ⟨"y", none, .error (.input (.missing "y"))⟩, ⟨"x\n", none, .ok [t, u]⟩]
    (∀ s ∈ scans, ∀ ts, s.tokens? = some ts → ∀ t ∈ ts, t.span.Fits) ∧
      ∃ v, Json.read? (renderJson scans) = some (.object [("x\n", v)]) ∧
        DecodesTo v [t, u] := by
  intro t u scans
  have hfit : ∀ s ∈ scans, ∀ ts, s.tokens? = some ts → ∀ t ∈ ts, t.span.Fits := by
    have h : ∀ s ∈ scans, ∀ t ∈ s.tokens?.getD [], t.span.Fits := by decide
    intro s hs ts hts
    have hs := h s hs
    rwa [hts] at hs
  refine ⟨hfit, ?_⟩
  obtain ⟨fields, hread, hnames, htokens⟩ := (token_output_decodes scans hfit).2.2 (by decide)
  obtain ⟨⟨name, v⟩, rfl, hname⟩ := List.map_eq_singleton_iff.mp
    (hnames.trans (show namesOf scans = ["x\n"] by decide))
  obtain rfl : name = "x\n" := hname
  obtain ⟨ts, hlast, hdecodes⟩ := htokens _ List.mem_cons_self
  have hts : lastTokens? scans "x\n" = some [t, u] := by decide
  obtain rfl : ts = [t, u] := Option.some.inj (hlast.symm.trans hts)
  exact ⟨v, hread, hdecodes⟩

end FileScan

end Lexis
