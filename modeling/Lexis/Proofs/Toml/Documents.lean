import Lexis.Proofs.Toml.Values

/-!
  Lexis.Proofs.Toml.Documents

  Written lines are read back: an entry gives its key the value that stands behind it, and a header
  opens its table. Each is one step of the loop over the lines, whatever follows.
-/

namespace Lexis.Toml

/-- A key that needs no quotes. -/
def isBareKey (name : String) : Bool := !name.toList.isEmpty && name.toList.all isBare

theorem not_mem_of_isBare {c : Char} (h : isBare c = true) :
    c ∉ [' ', '\t', '"', '\'', '[', '#', '\n', '\r'] := by
  have hmarks : ∀ c ∈ [' ', '\t', '"', '\'', '[', '#', '\n', '\r'], isBare c = false := by
    simp [isBare, isDigit]
  intro hmem
  rw [hmarks c hmem] at h
  exact Bool.false_ne_true h

theorem skipSpaces_cons {c : Char} (h : isSpace c = false) (cs : List Char) :
    skipSpaces (c :: cs) = c :: cs := by
  rw [skipSpaces, List.dropWhile_cons_of_neg (by simp [h])]

theorem isSpace_of_isBare {c : Char} (h : isBare c = true) : isSpace c = false := by
  have := not_mem_of_isBare h
  simp at this
  simp [isSpace, this]

/-- The first character of a key without quotes. -/
theorem exists_cons_of_isBareKey {name : String} (h : isBareKey name = true) :
    ∃ c cs, name.toList = c :: cs ∧ isBare c = true := by
  simp only [isBareKey, Bool.and_eq_true, List.all_eq_true] at h
  match hname : name.toList with
  | [] => simp [hname] at h
  | c :: cs => exact ⟨c, cs, rfl, h.2 c (hname ▸ List.mem_cons_self)⟩

theorem simpleKey?_bare {name : String} (hname : isBareKey name = true) {c : Char}
    (hc : isBare c = false) (rest : List Char) :
    simpleKey? (name.toList ++ c :: rest) = some (name, c :: rest) := by
  obtain ⟨d, ds, htext, hd⟩ := exists_cons_of_isBareKey hname
  have hall : ∀ e ∈ name.toList, isBare e = true := by
    simp only [isBareKey, Bool.and_eq_true, List.all_eq_true] at hname
    exact hname.2
  have htake : (name.toList ++ c :: rest).takeWhile isBare = name.toList := by
    rw [List.takeWhile_append_of_pos hall, List.takeWhile_cons_of_neg (by simp [hc]),
      List.append_nil]
  have hdrop : (name.toList ++ c :: rest).dropWhile isBare = c :: rest := by
    rw [List.dropWhile_append_of_pos hall, List.dropWhile_cons_of_neg (by simp [hc])]
  have hquotes := not_mem_of_isBare hd
  simp at hquotes
  have hname : String.ofList (d :: ds) = name := by rw [← htext, String.ofList_toList]
  unfold simpleKey?
  rw [htake, hdrop, htext, List.cons_append]
  simp [hquotes, hname]

theorem key?_bare {name : String} (hname : isBareKey name = true) {c : Char}
    (hc : isBare c = false) {rest tail : List Char} {e : Char}
    (htail : skipSpaces (c :: rest) = e :: tail) (hdot : e ≠ '.') :
    key? (name.toList ++ c :: rest) = some ([], name, e :: tail) := by
  obtain ⟨d, ds, htext, hd⟩ := exists_cons_of_isBareKey hname
  have hskip : skipSpaces (name.toList ++ c :: rest) = name.toList ++ c :: rest := by
    rw [htext]
    exact skipSpaces_cons (isSpace_of_isBare hd) _
  have hparts : keyParts? (depthLimit - 1) (name.toList ++ c :: rest) =
      some ([name], e :: tail) := by
    show keyParts? (78 + 1) _ = _
    rw [keyParts?, hskip, simpleKey?_bare hname hc]
    simp only [Option.bind_eq_bind, Option.bind_some, htail]
    split
    next heq => exact absurd (List.cons.inj heq).1 hdot
    next => rfl
  rw [key?, hparts]
  rfl

theorem lineEnd?_newline (rest : List Char) : lineEnd? ('\n' :: rest) = some rest := by
  rw [lineEnd?, skipSpaces_cons rfl]
  rfl

/-! ## Lines -/

namespace Document

variable {d d' : Document}

theorem lines?_blank (d : Document) (fuel : Nat) (rest : List Char) :
    d.lines? (fuel + 1) ('\n' :: rest) = d.lines? fuel rest := by
  rw [lines?, skipSpaces_cons rfl]
  show (lineEnd? ('\n' :: rest)).bind (d.lines? fuel) = _
  rw [lineEnd?_newline]
  rfl

theorem lines?_of_line? {c : Char} {cs rest : List Char} (hs : isSpace c = false)
    (hc : c ∉ ['#', '\n', '\r']) (hline : d.line? (c :: cs) = some (d', '\n' :: rest))
    (fuel : Nat) : d.lines? (fuel + 1) (c :: cs) = d'.lines? fuel rest := by
  have hmark : ¬(c = '#' || c = '\n' || c = '\r') = true := by
    simp at hc
    simp [hc]
  rw [lines?, skipSpaces_cons hs]
  simp only [if_neg hmark, hline, Option.bind_eq_bind, Option.bind_some, lineEnd?_newline]

/-- An entry is one line. -/
theorem lines?_entry {key : String} {text : List Char} {v : Value} (hkey : isBareKey key = true)
    (hvalue : Denotes text v) (hassign : d.assign [] key v = some d') (fuel : Nat)
    (rest : List Char) :
    d.lines? (fuel + 1) (entryChars key text ++ rest) = d'.lines? fuel rest := by
  obtain ⟨c, cs, hhead, hc⟩ := exists_cons_of_isBareKey hkey
  obtain ⟨e, tail, htext, he⟩ := hvalue.head
  have hentry : entryChars key text ++ rest =
      key.toList ++ ' ' :: '=' :: ' ' :: (text ++ '\n' :: rest) := by
    simp [entryChars]
  have hspace : skipSpaces (' ' :: (text ++ '\n' :: rest)) = text ++ '\n' :: rest := by
    rw [htext]
    exact skipSpaces_cons he _
  have hpair : pair? (value? depthLimit) (entryChars key text ++ rest) =
      some (([], key, v), '\n' :: rest) := by
    rw [hentry, pair?, key?_bare hkey (by decide) (e := '=') rfl (by decide)]
    show ((value? depthLimit (skipSpaces (' ' :: (text ++ '\n' :: rest)))).bind _) = _
    rw [hspace, hvalue.value]
    rfl
  have hmarks := not_mem_of_isBare hc
  rw [hentry, hhead, List.cons_append] at hpair ⊢
  refine lines?_of_line? (isSpace_of_isBare hc) (fun h => hmarks (by simp at h; simp [h])) ?_ fuel
  have hbracket : c ≠ '[' := fun h => hmarks (by simp [h])
  rw [line?, hpair]
  · simp only [Option.bind_eq_bind, Option.bind_some, hassign]
    rfl
  · exact fun _ h => hbracket (List.cons.inj h).1
  · exact fun _ h => hbracket (List.cons.inj h).1

/-- An empty line and a header are two lines. -/
theorem lines?_header {name : String} (hname : isBareKey name = true)
    (hopen : d.openTable [] name = some d') (fuel : Nat) (rest : List Char) :
    d.lines? (fuel + 2) (headerChars name ++ rest) = d'.lines? fuel rest := by
  obtain ⟨c, cs, hhead, hc⟩ := exists_cons_of_isBareKey hname
  have hheader : headerChars name ++ rest =
      '\n' :: '[' :: (name.toList ++ ']' :: '\n' :: rest) := by
    simp [headerChars]
  have hkey : key? (name.toList ++ ']' :: '\n' :: rest) = some ([], name, ']' :: '\n' :: rest) :=
    key?_bare hname (by decide) rfl (by decide)
  rw [hheader, lines?_blank]
  refine lines?_of_line? rfl (by decide) ?_ fuel
  have hbracket : c ≠ '[' := fun h => not_mem_of_isBare hc (by simp [h])
  rw [line?, hkey]
  · simp only [Option.bind_eq_bind, Option.bind_some, hopen]
    rfl
  · rw [hhead]
    exact fun _ h => hbracket (List.cons.inj h).1

end Document

end Lexis.Toml
