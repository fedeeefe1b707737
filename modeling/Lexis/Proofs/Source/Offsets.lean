import Lexis.Proofs.Source.Lines
import Mathlib.Data.List.Sort
import Mathlib.Data.Prod.Lex
import Mathlib.Order.Monotone.Defs

/-!
  Lexis.Proofs.Source.Offsets

  The look-up of an arbitrary offset, which may lie inside a character or behind the text.

  The line table ascends, so the binary search ends on the last line that has begun at the offset
  (`lineIndex_spec`), and the two ways to look up an offset agree (`locate?_eq`). What they find is
  then said in bytes alone: `Text.charAt?` is the character whose first byte stands at a position,
  and `Text.startsBefore` lists the positions below an offset at which one begins.
-/

namespace Lexis

/-! ## Binary search -/

namespace Search

variable {table : Array Nat} {key lo hi : Nat} {h : hi ≤ table.size}

/-- A hit is right for a key: it stands at the index, or the index parts the smaller entries from
    the greater ones. -/
def Hit.Right (table : Array Nat) (key : Nat) : Hit → Prop
  | .found i => table[i]? = some key
  | .absent i => i ≤ table.size ∧ (∀ j x, table[j]? = some x → j < i → x < key) ∧
      ∀ j x, table[j]? = some x → i ≤ j → key < x

theorem lt_of_getElem? (hs : table.toList.Pairwise (· < ·)) {i j x y : Nat}
    (hx : table[i]? = some x) (hy : table[j]? = some y) (hij : i < j) : x < y := by
  obtain ⟨hi, rfl⟩ := Array.getElem?_eq_some_iff.mp hx
  obtain ⟨hj, rfl⟩ := Array.getElem?_eq_some_iff.mp hy
  exact List.pairwise_iff_getElem.mp hs i j hi hj hij

/-- The search narrows the stretch and keeps what lies outside it on its side of the key. -/
theorem between_right (hs : table.toList.Pairwise (· < ·)) (hle : lo ≤ hi)
    (hbelow : ∀ j x, table[j]? = some x → j < lo → x < key)
    (habove : ∀ j x, table[j]? = some x → hi ≤ j → key < x) :
    (between table key lo hi h).Right table key := by
  fun_induction between table key lo hi h with
  | case1 lo hi h hlt mid hmid heq =>
    show table[mid]? = some key
    rw [Array.getElem?_eq_getElem hmid, heq]
  | case2 lo hi h hlt mid hmid hne hless ih =>
    have hm : mid = lo + (hi - lo) / 2 := rfl
    apply ih (by omega) ?_ habove
    -- Everything up to the middle is at most the middle entry, which is too small.
    intro j x hx hj
    rcases Nat.lt_or_eq_of_le (Nat.le_of_lt_succ hj) with hj | rfl
    · have := lt_of_getElem? hs hx (Array.getElem?_eq_getElem hmid) hj
      omega
    · obtain ⟨_, rfl⟩ := Array.getElem?_eq_some_iff.mp hx
      exact hless
  | case3 lo hi h hlt mid hmid hne hless ih =>
    have hm : mid = lo + (hi - lo) / 2 := rfl
    apply ih (by omega) hbelow
    -- Everything from the middle on is at least the middle entry, which is too great.
    intro j x hx hj
    rcases Nat.lt_or_eq_of_le hj with hj | rfl
    · have := lt_of_getElem? hs (Array.getElem?_eq_getElem hmid) hx hj
      omega
    · obtain ⟨_, rfl⟩ := Array.getElem?_eq_some_iff.mp hx
      omega
  | case4 lo hi h hlt =>
    refine ⟨by omega, hbelow, fun j x hx hj => habove j x hx (by omega)⟩

theorem binary_right (hs : table.toList.Pairwise (· < ·)) (key : Nat) :
    (binary table key).Right table key := by
  apply between_right hs (Nat.zero_le _)
  · intro j x _ hj
    omega
  · intro j x hx hj
    have := (Array.getElem?_eq_some_iff.mp hx).1
    omega

end Search

/-! ## Characters by the position of their first byte -/

namespace Text

variable {cs pre post : List Char} {i o : Nat} {c : Char}

/-- What is left of a text after some of its bytes follows characters of as many bytes. -/
theorem dropBytes?_eq_some_iff {rest : List Char} :
    dropBytes? i cs = some rest ↔ ∃ pre, cs = pre ++ rest ∧ byteLength pre = i := by
  constructor
  · intro h
    fun_induction dropBytes? i cs with
    | case1 cs => exact ⟨[], by simpa using h, rfl⟩
    | case2 n => cases h
    | case3 n c cs hc ih =>
      obtain ⟨pre, rfl, hpre⟩ := ih h
      refine ⟨c :: pre, rfl, ?_⟩
      rw [byteLength_cons]
      omega
    | case4 n c cs hc => cases h
  · rintro ⟨pre, rfl, rfl⟩
    exact dropBytes?_append pre rest

theorem isBoundary_iff :
    isBoundary cs i = true ↔ ∃ pre post, cs = pre ++ post ∧ byteLength pre = i := by
  rw [isBoundary, Option.isSome_iff_exists]
  constructor
  · rintro ⟨post, h⟩
    obtain ⟨pre, hcs, hi⟩ := dropBytes?_eq_some_iff.mp h
    exact ⟨pre, post, hcs, hi⟩
  · rintro ⟨pre, post, hcs, hi⟩
    exact ⟨post, dropBytes?_eq_some_iff.mpr ⟨pre, hcs, hi⟩⟩

/-- The character whose first byte stands at a position. -/
def charAt? (cs : List Char) (i : Nat) : Option Char := (dropBytes? i cs).bind List.head?

theorem charAt?_eq_some_iff :
    charAt? cs i = some c ↔ ∃ pre post, cs = pre ++ c :: post ∧ byteLength pre = i := by
  rw [charAt?, Option.bind_eq_some_iff]
  constructor
  · rintro ⟨rest, hrest, hc⟩
    obtain ⟨pre, rfl, hi⟩ := dropBytes?_eq_some_iff.mp hrest
    obtain ⟨post, rfl⟩ := List.head?_eq_some_iff.mp hc
    exact ⟨pre, post, rfl, hi⟩
  · rintro ⟨pre, post, hcs, hi⟩
    exact ⟨c :: post, dropBytes?_eq_some_iff.mpr ⟨pre, hcs, hi⟩, rfl⟩

theorem mem_charOffsets_iff :
    (i, c) ∈ charOffsets o cs ↔ ∃ pre post, cs = pre ++ c :: post ∧ o + byteLength pre = i := by
  constructor
  · intro h
    induction cs generalizing o with
    | nil => cases h
    | cons d cs ih =>
      rw [charOffsets_cons, List.mem_cons] at h
      rcases h with h | h
      · obtain ⟨rfl, rfl⟩ := Prod.mk.inj h
        exact ⟨[], cs, rfl, rfl⟩
      · obtain ⟨pre, post, rfl, rfl⟩ := ih h
        exact ⟨d :: pre, post, rfl, by rw [byteLength_cons, Nat.add_assoc]⟩
  · rintro ⟨pre, post, rfl, rfl⟩
    rw [charOffsets_append, charOffsets_cons]
    exact List.mem_append_right _ List.mem_cons_self

theorem charAt?_eq_some_iff_mem : charAt? cs i = some c ↔ (i, c) ∈ charOffsets 0 cs := by
  simp only [charAt?_eq_some_iff, mem_charOffsets_iff, Nat.zero_add]

/-- Later characters begin later. -/
theorem pairwise_charOffsets (o : Nat) (cs : List Char) :
    (charOffsets o cs).Pairwise fun x y => x.1 < y.1 := by
  induction cs generalizing o with
  | nil => exact .nil
  | cons c cs ih =>
    rw [charOffsets_cons]
    refine .cons (fun x hx => ?_) (ih _)
    have hb := (bounds_of_mem_charOffsets hx).1
    have hpos := c.utf8Size_pos
    show o < x.1
    omega

theorem charOffsets_eq_map (o : Nat) (cs : List Char) :
    charOffsets o cs = (charOffsets 0 cs).map fun x => (o + x.1, x.2) := by
  induction cs using List.reverseRecOn with
  | nil => rfl
  | append_singleton cs c ih =>
    simp [charOffsets_append, ih]

/-- The positions below an offset at which a character begins that satisfies `p`. -/
def startsBefore (cs : List Char) (o : Nat) (p : Char → Bool) : List Nat :=
  (List.range o).filter fun i => (charAt? cs i).any p

theorem mem_startsBefore_iff {p : Char → Bool} :
    i ∈ startsBefore cs o p ↔ i < o ∧ ∃ c, (i, c) ∈ charOffsets 0 cs ∧ p c = true := by
  simp only [startsBefore, List.mem_filter, List.mem_range, Option.any_eq_true,
    ← charAt?_eq_some_iff_mem]

theorem startsBefore_eq (p : Char → Bool) (h : cs = pre ++ post) (ho : Reaches pre o) :
    startsBefore cs o p = ((charOffsets 0 pre).filter fun x => p x.2).map Prod.fst := by
  have hl : (startsBefore cs o p).Pairwise (· < ·) := List.pairwise_lt_range.filter _
  have hr : (((charOffsets 0 pre).filter fun x => p x.2).map Prod.fst).Pairwise (· < ·) :=
    List.pairwise_map.mpr ((pairwise_charOffsets 0 pre).filter _)
  -- Both lists ascend, so it is enough that they have the same members.
  refine hl.eq_of_mem_iff hr fun i => ?_
  rw [mem_startsBefore_iff, h, charOffsets_append, Nat.zero_add, List.mem_map]
  constructor
  · rintro ⟨hi, c, hc, hp⟩
    rcases List.mem_append.mp hc with hc | hc
    · exact ⟨(i, c), List.mem_filter.mpr ⟨hc, hp⟩, rfl⟩
    · have hb := (bounds_of_mem_charOffsets hc).1
      have hk := ho.covers
      simp only at hb
      omega
  · rintro ⟨x, hx, rfl⟩
    obtain ⟨hx, hp⟩ := List.mem_filter.mp hx
    exact ⟨ho.begun x hx, x.2, List.mem_append_left _ hx, hp⟩

/-- The characters that begin before an offset. -/
theorem exists_reaches (h : o ≤ byteLength cs) :
    ∃ pre post, cs = pre ++ post ∧ Reaches pre o := by
  induction cs using List.reverseRecOn with
  | nil => exact ⟨[], [], rfl, by simp, h⟩
  | append_singleton cs c ih =>
    by_cases ho : o ≤ byteLength cs
    · obtain ⟨pre, post, rfl, hpre⟩ := ih ho
      exact ⟨pre, post ++ [c], by simp, hpre⟩
    · refine ⟨cs ++ [c], [], by simp, fun x hx => ?_, h⟩
      rw [charOffsets_append, Nat.zero_add, List.mem_append] at hx
      rcases hx with hx | hx
      · have hb := (bounds_of_mem_charOffsets hx).2
        have hpos := x.2.utf8Size_pos
        omega
      · obtain rfl : x = (byteLength cs, c) := by simpa using hx
        omega

end Text

/-! ## The two look-ups -/

namespace Source

variable {s : Source} {pre post : List Char} {o : Nat}

/-- The line table ascends. -/
theorem pairwise_lineStarts (s : Source) : s.lineStarts.Pairwise (· < ·) := by
  rw [lineStarts_eq]
  refine .cons (fun i hi => (Text.bounds_of_mem_lineBreaks hi).1) ?_
  refine (Text.pairwise_charOffsets 0 s.chars).filterMap _ ?_
  intro x y hxy i hi j hj
  simp only [Option.ite_none_right_eq_some, Option.some.injEq] at hi hj
  omega

/-- The search ends on the last line that begins at or before the offset. -/
theorem lineIndex_spec (s : Source) (o : Nat) :
    s.lineIndex o < s.lineStarts.length ∧
      ∀ j start, s.lineStarts[j]? = some start → (start ≤ o ↔ j ≤ s.lineIndex o) := by
  have hs : s.lineStarts.toArray.toList.Pairwise (· < ·) := s.pairwise_lineStarts
  have hright := Search.binary_right hs o
  unfold lineIndex
  cases hhit : Search.binary s.lineStarts.toArray o with
  | found i =>
    have hi : s.lineStarts[i]? = some o := by simpa [hhit, Search.Hit.Right] using hright
    obtain ⟨hlen, -⟩ := List.getElem?_eq_some_iff.mp hi
    refine ⟨hlen, fun j start hj => ?_⟩
    show start ≤ o ↔ j ≤ i
    rcases Nat.lt_trichotomy j i with hij | rfl | hij
    · have := Search.lt_of_getElem? hs (by simpa using hj) (by simpa using hi) hij
      omega
    · obtain rfl : start = o := Option.some.inj (hj.symm.trans hi)
      simp
    · have := Search.lt_of_getElem? hs (by simpa using hi) (by simpa using hj) hij
      omega
  | absent i =>
    rw [hhit] at hright
    obtain ⟨hsize, hbelow, habove⟩ := hright
    simp only [List.getElem?_toArray, List.size_toArray] at hsize hbelow habove
    -- The first line begins at zero, so an offset never comes before it.
    have hi : 0 < i := by
      refine Nat.pos_of_ne_zero fun hzero => ?_
      have := habove 0 0 rfl (by omega)
      omega
    show i - 1 < s.lineStarts.length ∧
      ∀ j start, s.lineStarts[j]? = some start → (start ≤ o ↔ j ≤ i - 1)
    refine ⟨by omega, fun j start hj => ?_⟩
    rcases Nat.lt_or_ge j i with hij | hij
    · have := hbelow j start hj hij
      omega
    · have := habove j start hj hij
      omega

theorem takeWhile_eq_take {l : List Nat} {p : Nat → Bool} {n : Nat}
    (h : ∀ j x, l[j]? = some x → (p x = true ↔ j < n)) : l.takeWhile p = l.take n := by
  induction l generalizing n with
  | nil => simp
  | cons a l ih =>
    have ha : p a = true ↔ 0 < n := h 0 a rfl
    cases n with
    | zero =>
      have ha : ¬p a = true := fun hp => Nat.lt_irrefl 0 (ha.mp hp)
      rw [List.takeWhile_cons_of_neg ha, List.take_zero]
    | succ n =>
      rw [List.takeWhile_cons_of_pos (ha.mpr (Nat.succ_pos n)), List.take_succ_cons, ih]
      intro j x hj
      rw [h (j + 1) x hj, Nat.succ_lt_succ_iff]

/-- The lines up to it are those that have begun, one for each line end before the offset and one
    more. -/
theorem lineIndex_of_reaches (h : s.chars = pre ++ post) (ho : Text.Reaches pre o) :
    s.lineIndex o = pre.count '\n' := by
  obtain ⟨hlen, hspec⟩ := s.lineIndex_spec o
  have hbegun : s.lineStarts.takeWhile (· ≤ o) = s.lineStarts.take (s.lineIndex o + 1) := by
    apply takeWhile_eq_take
    intro j start hj
    rw [decide_eq_true_eq, hspec j start hj, Nat.lt_succ_iff]
  have hcount := congrArg List.length hbegun
  rw [begun_of_reaches h ho, List.length_cons, Text.length_lineBreaks, List.length_take] at hcount
  omega

@[simp] theorem lineCol_min (s : Source) (offset : Nat) :
    s.lineCol (min offset s.size) = s.lineCol offset := by
  simp [lineCol]

/-- Both look-ups find the same place, so the one that searches always finds one. -/
theorem locate?_eq (s : Source) (offset : Nat) : s.locate? offset = some (s.lineCol offset) := by
  obtain ⟨pre, post, hchars, ho⟩ := Text.exists_reaches (Nat.min_le_right offset s.size)
  have hindex := lineIndex_of_reaches hchars ho
  rw [← lineCol_min, lineCol_of_reaches hchars ho]
  obtain ⟨ls, line, rfl, hline, hls⟩ := Text.exists_lastLine pre
  have hcount : (ls ++ line).count '\n' = ls.count '\n' := by
    rw [List.count_append, List.count_eq_zero.mpr hline, Nat.add_zero]
  have hstart := lineStarts_getElem?_start hchars hline hls
  have hdrop : Text.dropBytes? (Text.byteLength ls) s.chars = some (line ++ post) := by
    rw [hchars, List.append_assoc, Text.dropBytes?_append]
  -- Counted from the line start, the characters before the offset are those of `line`.
  have hbefore : ((Text.charOffsets 0 (line ++ post)).takeWhile fun p =>
      Text.byteLength ls + p.1 < min offset s.size).length = line.length := by
    have htake := congrArg List.length (Text.takeWhile_charOffsets_of_reaches post ho)
    rw [Text.charOffsets_eq_map, List.takeWhile_map, List.length_map, Text.length_charOffsets]
      at htake
    exact htake
  simp only [locate?, hindex, hcount, hstart, hdrop, hbefore, Option.bind_eq_bind, Option.bind_some,
    Option.pure_def]
  rw [Position.after_line, Position.after_start_column, hcount,
    Text.lastLineLength_of_lastLine hline hls, Nat.add_comm]
  rfl

/-! ## The place of an offset in bytes -/

/-- The positions below an offset at which a line ends. -/
def lineEnds (s : Source) (o : Nat) : List Nat := Text.startsBefore s.chars o (· = '\n')

/-- The byte after the last line end below an offset, or the first byte of the text. -/
def lineBegin (s : Source) (o : Nat) : Nat := ((s.lineEnds o).getLast?.map (· + 1)).getD 0

/-- The positions from `b` up to an offset at which a character begins. -/
def charStarts (s : Source) (b o : Nat) : List Nat :=
  (Text.startsBefore s.chars o fun _ => true).filter (b ≤ ·)

theorem map_lineEnds (h : s.chars = pre ++ post) (ho : Text.Reaches pre o) :
    (s.lineEnds o).map (· + 1) = Text.lineBreaks 0 pre := by
  rw [lineEnds, Text.startsBefore_eq _ h ho, List.map_map, Text.lineBreaks,
    ← List.filterMap_eq_map, List.filterMap_filter]
  simp only [decide_eq_true_eq, Function.comp_apply]

theorem length_lineEnds (h : s.chars = pre ++ post) (ho : Text.Reaches pre o) :
    (s.lineEnds o).length = pre.count '\n' := by
  rw [← Text.length_lineBreaks 0 pre, ← map_lineEnds h ho, List.length_map]

theorem lineBegin_eq {ls line : List Char} (h : s.chars = ls ++ line ++ post)
    (ho : Text.Reaches (ls ++ line) o) (hline : '\n' ∉ line)
    (hls : ls = [] ∨ ∃ ls', ls = ls' ++ ['\n']) : s.lineBegin o = Text.byteLength ls := by
  rw [← getLast?_lineBreaks hline hls, ← map_lineEnds h ho, lineBegin, ← List.getLast?_map]
  cases List.map (· + 1) (s.lineEnds o) <;> rfl

theorem length_charStarts {ls line : List Char} (h : s.chars = ls ++ line ++ post)
    (ho : Text.Reaches (ls ++ line) o) :
    (s.charStarts (Text.byteLength ls) o).length = line.length := by
  have hbefore : (Text.charOffsets 0 ls).filter (fun x => Text.byteLength ls ≤ x.1) = [] := by
    rw [List.filter_eq_nil_iff]
    intro x hx
    have hb := (Text.bounds_of_mem_charOffsets hx).2
    have hpos := x.2.utf8Size_pos
    simp only [decide_eq_true_eq]
    omega
  have hafter : (Text.charOffsets (Text.byteLength ls) line).filter
      (fun x => Text.byteLength ls ≤ x.1) = Text.charOffsets (Text.byteLength ls) line := by
    rw [List.filter_eq_self]
    intro x hx
    simpa using (Text.bounds_of_mem_charOffsets hx).1
  rw [charStarts, Text.startsBefore_eq _ h ho, List.filter_true, List.filter_map, List.length_map,
    Text.charOffsets_append, Nat.zero_add, List.filter_append]
  show ((Text.charOffsets 0 ls).filter (fun x => Text.byteLength ls ≤ x.1) ++
    (Text.charOffsets (Text.byteLength ls) line).filter
      (fun x => Text.byteLength ls ≤ x.1)).length = line.length
  rw [hbefore, hafter, List.nil_append, Text.length_charOffsets]

theorem lineCol_eq (s : Source) {o : Nat} (ho : o ≤ s.size) :
    s.lineCol o = (1 + (s.lineEnds o).length, 1 + (s.charStarts (s.lineBegin o) o).length) := by
  obtain ⟨pre, post, hchars, ho⟩ := Text.exists_reaches ho
  obtain ⟨ls, line, rfl, hline, hls⟩ := Text.exists_lastLine pre
  rw [lineCol_of_reaches hchars ho, Position.after_line, Position.after_start_column,
    length_lineEnds hchars ho, lineBegin_eq hchars ho hline hls, length_charStarts hchars ho,
    Text.lastLineLength_of_lastLine hline hls, Nat.add_comm 1 line.length]
  rfl

/-! ## Order -/

/-- More text is a later place: on a later line, or further along the same line. -/
theorem toLex_after_lt (pre : List Char) {mid : List Char} (hmid : mid ≠ []) :
    toLex ((Position.start.after pre).line, (Position.start.after pre).column) <
      toLex ((Position.start.after (pre ++ mid)).line,
        (Position.start.after (pre ++ mid)).column) := by
  have hlen : 0 < mid.length := List.length_pos_iff.mpr hmid
  rw [Prod.Lex.toLex_lt_toLex]
  simp only [Position.after_line, Position.after_start_column, List.count_append]
  by_cases hn : '\n' ∈ mid
  · have := List.count_pos_iff.mpr hn
    exact Or.inl (by omega)
  · refine Or.inr ⟨by rw [List.count_eq_zero.mpr hn, Nat.add_zero], ?_⟩
    rw [Text.lastLineLength_append_of_notMem pre hn]
    omega

theorem toLex_lineCol_lt {i j : Nat} (hi : Text.isBoundary s.chars i = true)
    (hj : Text.isBoundary s.chars j = true) (hij : i < j) :
    toLex (s.lineCol i) < toLex (s.lineCol j) := by
  obtain ⟨pre, post, hpre, rfl⟩ := Text.isBoundary_iff.mp hi
  obtain ⟨pre', post', hpre', rfl⟩ := Text.isBoundary_iff.mp hj
  -- Of two initial parts of one text, the one with fewer bytes begins the other.
  rcases List.prefix_or_prefix_of_prefix ⟨post, hpre.symm⟩ ⟨post', hpre'.symm⟩ with h | h
  · obtain ⟨mid, rfl⟩ := h
    have hmid : mid ≠ [] := by
      rintro rfl
      simp at hij
    rw [lineCol_boundary hpre, lineCol_boundary hpre']
    exact toLex_after_lt pre hmid
  · obtain ⟨mid, rfl⟩ := h
    rw [Text.byteLength_append] at hij
    omega

end Source

/-- The look-up of an offset is exact for every offset. The search in the line table always has an
    answer. With `o` the offset, or the end of the text if the offset lies behind it, the line is
    one more than the number of line ends at positions below `o`, and the column one more than the
    number of characters that begin between the last of these line ends and `o`. So later character
    boundaries have later places. -/
theorem offset_lookup_is_exact (s : Source) :
    (∀ offset, s.locate? offset = some (s.lineCol offset) ∧
      s.lineCol offset = (1 + (s.lineEnds (min offset s.size)).length,
        1 + (s.charStarts (s.lineBegin (min offset s.size)) (min offset s.size)).length)) ∧
    StrictMonoOn (fun i => toLex (s.lineCol i)) {i | Text.isBoundary s.chars i = true} := by
  refine ⟨fun offset => ⟨s.locate?_eq offset, ?_⟩, ?_⟩
  · rw [← Source.lineCol_min, Source.lineCol_eq s (Nat.min_le_right offset s.size)]
  · intro i hi j hj hij
    exact Source.toLex_lineCol_lt hi hj hij

/-- The second byte of `λ` is still on the first line, behind the two characters before it. -/
example : (Source.mk "sets" "aλ\nb").lineCol 2 = (1, 3) ∧
    (Source.mk "sets" "aλ\nb").lineCol 4 = (2, 1) := by decide

end Lexis
