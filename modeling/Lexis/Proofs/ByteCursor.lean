import Lexis.Proofs.Scan.Reading
import Lexis.Proofs.Source.Places

/-!
  Lexis.Proofs.ByteCursor

  The byte cursor visits every character once. While the counters fit, `k` moves from the beginning
  of a text lead to `ByteCursor.placed`, the cursor behind the first `k` characters, and that cursor
  agrees with the line table of the text. A loop over the cursor is then a recursion on the
  characters (`ByteCursor.feed`), and the scan of the bytes is the scan of the text. A move that goes
  through shows that the counters fit behind it (`ByteCursor.fitsAt_of_advance`), so without any
  bound on the text the scan of the bytes runs out of counters or is the scan of the text
  (`Lexicon.eq_scan_of_scanBytes`).
-/

namespace Lexis

/-! ## Bytes of a character -/

theorem Text.byteLength_eq_size_utf8Encode (cs : List Char) :
    Text.byteLength cs = cs.utf8Encode.size := by
  rw [← String.toByteArray_ofList, String.size_toByteArray, ← Text.byteLength_toList,
    String.toList_ofList]

/-- A first byte below 128 is the whole character. -/
theorem Text.ofUInt8_of_utf8EncodeChar {c : Char} {b : UInt8} {bs : List UInt8}
    (h : String.utf8EncodeChar c = b :: bs) (hb : b < 128) : Char.ofUInt8 b = c := by
  rw [UInt8.lt_iff_toNat_lt] at hb
  revert h
  -- The first byte of two, three or four has its high bit set.
  fun_cases String.utf8EncodeChar c with
  | case1 v hv =>
    rintro ⟨⟩
    apply Char.ext
    rw [← UInt32.toNat_inj]
    show v % 256 = v
    omega
  | case2 v _ hv =>
    rintro ⟨⟩
    simp at hb
    omega
  | case3 v _ _ hv =>
    rintro ⟨⟩
    simp at hb
    omega
  | case4 v _ _ hv =>
    rintro ⟨⟩
    simp at hb
    omega

/-! ## Single moves -/

theorem Word.increment_ofNat {n : Nat} (h : n + 1 < UInt32.size) :
    Word.increment (.ofNat n) = .ok (.ofNat (n + 1)) := by
  rw [Word.increment, UInt32.toNat_ofNat_of_lt' (by omega), if_pos h, UInt32.ofNat_add]
  rfl

theorem Word.lt_of_increment {n m : UInt32} (h : Word.increment n = .ok m) :
    n.toNat + 1 < UInt32.size := by
  unfold increment at h
  split_ifs at h with hlt
  exact hlt

theorem Cursor.advanceBy_eq (k : Nat) (cs : List Char) (p : Position) :
    Cursor.advanceBy k ⟨cs, p⟩ = ⟨cs.drop k, p.after (cs.take k)⟩ := by
  induction k generalizing cs p with
  | zero => simp [Cursor.advanceBy]
  | succ k ih =>
    cases cs with
    | nil => simpa [Cursor.advanceBy] using ih [] p
    | cons c cs => simpa [Cursor.advanceBy] using ih cs (p.advance c)

/-! ## The character at a boundary -/

namespace ByteCursor

section Boundary

variable {cur : ByteCursor} {pre post : List Char} {c : Char}

theorem bytes_of_split (h : cur.source.toList = pre ++ post) :
    cur.source.toByteArray = pre.utf8Encode ++ post.utf8Encode := by
  rw [← String.utf8Encode_toList, h, List.utf8Encode_append]

theorem isValid_of_split (h : cur.source.toList = pre ++ post)
    (hoff : cur.offset = Text.byteLength pre) :
    String.Pos.Raw.isValid cur.source ⟨cur.offset⟩ = true := by
  rw [String.Pos.Raw.isValid_eq_true_iff, String.Pos.Raw.isValid_iff_exists_append]
  refine ⟨String.ofList pre, String.ofList post, ?_, ?_⟩
  · rw [← String.ofList_append, ← h, String.ofList_toList]
  · rw [hoff, Text.byteLength_eq_size_utf8Encode, ← String.toByteArray_ofList]
    rfl

theorem utf8DecodeChar?_of_split (h : cur.source.toList = pre ++ c :: post)
    (hoff : cur.offset = Text.byteLength pre) :
    cur.source.toByteArray.utf8DecodeChar? cur.offset = some c := by
  rw [ByteArray.utf8DecodeChar?_eq_utf8DecodeChar?_extract, bytes_of_split h, hoff,
    Text.byteLength_eq_size_utf8Encode, ByteArray.extract_append_eq_right rfl (by simp)]
  exact List.utf8DecodeChar?_utf8Encode_cons

/-- The byte at a boundary is the first one of the character there. -/
theorem exists_utf8EncodeChar_of_split {b : UInt8} (h : cur.source.toList = pre ++ c :: post)
    (hoff : cur.offset = Text.byteLength pre) (hb : cur.source.toByteArray[cur.offset]? = some b) :
    ∃ bs, String.utf8EncodeChar c = b :: bs := by
  have hbytes : cur.source.toByteArray =
      pre.utf8Encode ++ ((String.utf8EncodeChar c).toByteArray ++ post.utf8Encode) := by
    rw [bytes_of_split h, List.utf8Encode_cons, List.utf8Encode_singleton]
  cases hchar : String.utf8EncodeChar c with
  | nil => exact absurd hchar String.utf8EncodeChar_ne_nil
  | cons b' bs =>
    refine ⟨bs, ?_⟩
    rw [hbytes, hoff, Text.byteLength_eq_size_utf8Encode, hchar] at hb
    obtain ⟨hlt, hget⟩ := getElem?_eq_some_iff.mp hb
    rw [ByteArray.getElem_append_right (Nat.le_refl _), ByteArray.getElem_append_left (by simp),
      List.getElem_toByteArray] at hget
    simp only [Nat.sub_self, List.getElem_cons_zero] at hget
    rw [hget]

theorem current?_of_split (h : cur.source.toList = pre ++ c :: post)
    (hoff : cur.offset = Text.byteLength pre) : cur.current? = some c := by
  rw [current?, if_pos (isValid_of_split h hoff)]
  split
  · rename_i b hb
    split
    · rename_i hlt
      obtain ⟨bs, hbs⟩ := exists_utf8EncodeChar_of_split h hoff hb
      rw [Text.ofUInt8_of_utf8EncodeChar hbs hlt]
    · exact utf8DecodeChar?_of_split h hoff
  · exact utf8DecodeChar?_of_split h hoff

theorem current?_of_end (hoff : cur.offset = cur.source.utf8ByteSize) : cur.current? = none := by
  cases hc : cur.current? with
  | none => rfl
  | some c =>
    have hlt := offset_lt_of_current? hc
    omega

end Boundary

/-! ## The cursor behind a part of a text -/

/-- The cursor behind `pre`, an initial part of a text. -/
def placed (text : String) (pre : List Char) : ByteCursor :=
  let p := Position.start.after pre
  ⟨text, p.offset, .ofNat p.line, .ofNat p.column⟩

/-- The line and column behind an initial part of a text fit in 32 bits. -/
def FitsAt (pre : List Char) : Prop :=
  (Position.start.after pre).line < UInt32.size ∧ (Position.start.after pre).column < UInt32.size

/-- The line and column of every place of a text fit. -/
def Fits (text : String) : Prop := ∀ pre, pre <+: text.toList → FitsAt pre

theorem Fits.at {text : String} {pre post : List Char} (hfit : Fits text)
    (h : text.toList = pre ++ post) : FitsAt pre := hfit pre ⟨post, h.symm⟩

theorem fits_of_lines {s : Source} (hlines : s.lineCount < UInt32.size - 1)
    (hcolumns : ∀ line, line <:+: s.chars → '\n' ∉ line → line.length < UInt32.size - 1) :
    Fits s.content := by
  rintro pre ⟨post, hpost⟩
  have hchars : s.chars = pre ++ post := hpost.symm
  constructor
  · have hcount : s.lineCount = s.chars.count '\n' + 1 := by
      rw [Source.lineCount, Source.lineStarts_eq, List.length_cons, Text.length_lineBreaks]
    rw [hchars, List.count_append] at hcount
    rw [Position.after_line]
    show 1 + pre.count '\n' < UInt32.size
    omega
  · -- The column is one more than the length of the line that the part ends in.
    obtain ⟨ls, line, rfl, hline, hls⟩ := Text.exists_lastLine pre
    have hlength := hcolumns line ⟨ls, post, hchars.symm⟩ hline
    rw [Position.after_start_column, Text.lastLineLength_of_lastLine hline hls]
    show line.length + 1 < UInt32.size
    omega

section Moves

variable {text : String} {pre post : List Char} {c : Char}

theorem ofText_eq_placed (text : String) : ofText text = placed text [] := rfl

@[simp] theorem placed_offset : (placed text pre).offset = Text.byteLength pre := by
  simp [placed, Position.start]

theorem position_placed (hfit : FitsAt pre) :
    (placed text pre).position = Position.start.after pre := by
  show Position.mk _ (UInt32.ofNat _).toNat (UInt32.ofNat _).toNat = _
  rw [UInt32.toNat_ofNat_of_lt' hfit.1, UInt32.toNat_ofNat_of_lt' hfit.2]
  rfl

theorem current?_placed (h : text.toList = pre ++ post) :
    (placed text pre).current? = post.head? := by
  cases post with
  | nil =>
    apply current?_of_end
    rw [placed_offset]
    show Text.byteLength pre = text.utf8ByteSize
    rw [← Text.byteLength_toList, h, List.append_nil]
  | cons c post => exact current?_of_split h placed_offset

theorem counters_placed (hfit : FitsAt (pre ++ [c])) :
    (placed text pre).counters c =
      .ok ((placed text (pre ++ [c])).line, (placed text (pre ++ [c])).column) := by
  obtain ⟨hline, hcolumn⟩ := hfit
  by_cases hc : c = '\n'
  · simp only [Position.after_concat, Position.advance, if_pos hc] at hline
    simp [counters, placed, Position.after_concat, Position.advance, hc, Word.increment_ofNat hline,
      Except.map]
  · simp only [Position.after_concat, Position.advance, if_neg hc] at hcolumn
    simp [counters, placed, Position.after_concat, Position.advance, hc, Word.increment_ofNat hcolumn,
      Except.map]

theorem advance_placed (hfit : FitsAt (pre ++ [c])) (h : text.toList = pre ++ c :: post) :
    (placed text pre).advance = .ok (placed text (pre ++ [c])) := by
  have hcur : (placed text pre).current? = some c := current?_placed h
  have hoff : (placed text pre).offset + c.utf8Size = (placed text (pre ++ [c])).offset := by simp
  rw [advance, hcur]
  simp only [counters_placed hfit, Except.map, hoff]
  rfl

/-- A move that goes through has found room in the counter that grows. -/
theorem fitsAt_of_advance (hfit : FitsAt pre) (h : text.toList = pre ++ c :: post)
    {next : ByteCursor} (hnext : (placed text pre).advance = .ok next) : FitsAt (pre ++ [c]) := by
  have hcur : (placed text pre).current? = some c := current?_placed h
  have hline : (placed text pre).line.toNat = (Position.start.after pre).line :=
    UInt32.toNat_ofNat_of_lt' hfit.1
  have hcolumn : (placed text pre).column.toNat = (Position.start.after pre).column :=
    UInt32.toNat_ofNat_of_lt' hfit.2
  rw [advance, hcur] at hnext
  simp only [counters] at hnext
  rw [FitsAt, Position.after_concat, Position.advance]
  by_cases hc : c = '\n'
  · rw [if_pos hc] at hnext ⊢
    cases hgrown : Word.increment (placed text pre).line with
    | error e =>
      rw [hgrown] at hnext
      cases hnext
    | ok line => exact ⟨hline ▸ Word.lt_of_increment hgrown, (by decide : 1 < UInt32.size)⟩
  · rw [if_neg hc] at hnext ⊢
    cases hgrown : Word.increment (placed text pre).column with
    | error e =>
      rw [hgrown] at hnext
      cases hnext
    | ok column => exact ⟨hfit.1, hcolumn ▸ Word.lt_of_increment hgrown⟩

theorem advance_placed_end (h : text.toList = pre ++ []) :
    (placed text pre).advance = .ok (placed text pre) := by
  rw [advance, current?_placed h]
  rfl

theorem view_placed (hfit : FitsAt pre) (h : text.toList = pre ++ post) :
    (placed text pre).view = ⟨post.head?.toList, Position.start.after pre⟩ := by
  rw [view, current?_placed h, position_placed hfit]

theorem span_placed (hfit : Fits text) (h : text.toList = pre ++ post) :
    (placed text pre).span =
      ⟨Text.byteLength pre, Text.byteLength pre + Text.byteLength (post.take 1),
        (Position.start.after pre).line, (Position.start.after pre).column⟩ := by
  have hstart : Position.start.offset = 0 := rfl
  rw [span, view_placed (hfit.at h) h]
  cases post with
  | nil => simp [Span.point, hstart]
  | cons c post => simp [Cursor.span, Cursor.current?, hstart]

/-- Every move leads behind one more character, until there is none. -/
theorem advanceBy_placed (hfit : Fits text) (k : Nat) (h : text.toList = pre ++ post) :
    advanceBy k (placed text pre) = .ok (placed text (pre ++ post.take k)) := by
  induction k generalizing pre post with
  | zero => simp [advanceBy]
  | succ k ih =>
    cases post with
    | nil =>
      have hk := ih h
      rw [List.take_nil] at hk ⊢
      rw [advanceBy, advance_placed_end h]
      exact hk
    | cons c post =>
      have hrest : text.toList = (pre ++ [c]) ++ post := by simp [h]
      have hk := ih hrest
      rw [List.append_assoc, List.singleton_append] at hk
      rw [advanceBy, advance_placed (hfit.at hrest) h, List.take_succ_cons]
      exact hk

end Moves

/-! ## Loops over a text -/

section Loops

variable {σ ρ : Type} {text : String} {pre post : List Char} {c : Char}
  (body : σ → ByteCursor → Char → Except ρ σ) (finish : σ → ByteCursor → ρ)

/-- Hand the characters of `post`, which stand behind `pre`, to a loop body. -/
def feed (text : String) : List Char → List Char → σ → ρ
  | pre, [], s => finish s (placed text pre)
  | pre, c :: post, s =>
    match body s (placed text pre) c with
    | .error r => r
    | .ok s => feed text (pre ++ [c]) post s

/-- The body of a loop that also lists the characters it is handed, with their offsets. -/
def recording (p : σ × List (Nat × Char)) (cur : ByteCursor) (c : Char) :
    Except (ρ × List (Nat × Char)) (σ × List (Nat × Char)) :=
  let fed := p.2 ++ [(cur.offset, c)]
  match body p.1 cur c with
  | .error r => .error (r, fed)
  | .ok s => .ok (s, fed)

variable {body finish}

theorem loop_of_end {cur : ByteCursor} {s : σ} (h : cur.current? = none) :
    cur.loop body finish s = .ok (finish s cur) := by
  rw [loop]
  split
  · rfl
  · rename_i c hc
    rw [h] at hc
    cases hc

theorem loop_of_current {cur : ByteCursor} {s : σ} (h : cur.current? = some c) :
    cur.loop body finish s =
      match body s cur c with
      | .error r => .ok r
      | .ok s => cur.advance.bind fun next => next.loop body finish s := by
  rw [loop]
  split
  · rename_i hc
    rw [h] at hc
    cases hc
  · rename_i d hd
    obtain rfl : c = d := Option.some.inj (h.symm.trans hd)
    cases body s cur c with
    | error r => rfl
    | ok s =>
      simp only
      split
      · rename_i e he
        rw [he]
        rfl
      · rename_i next hnext
        rw [hnext]
        rfl

/-- A loop takes one round for every character that is left. -/
theorem loop_placed (hfit : Fits text) (h : text.toList = pre ++ post) (s : σ) :
    (placed text pre).loop body finish s = .ok (feed body finish text pre post s) := by
  induction post generalizing pre s with
  | nil => exact loop_of_end (current?_placed h)
  | cons c post ih =>
    have hrest : text.toList = (pre ++ [c]) ++ post := by simp [h]
    rw [loop_of_current (current?_placed h), advance_placed (hfit.at hrest) h, feed]
    cases body s (placed text pre) c with
    | error r => rfl
    | ok s => exact ih hrest s

/-- Recording changes nothing about what the loop does. -/
theorem feed_recording (pre post : List Char) (s : σ) (fed : List (Nat × Char)) :
    (feed (recording body) (fun p cur => (finish p.1 cur, p.2)) text pre post (s, fed)).1 =
      feed body finish text pre post s := by
  induction post generalizing pre s fed with
  | nil => rfl
  | cons c post ih =>
    rw [feed, feed, recording]
    cases body s (placed text pre) c with
    | error r => rfl
    | ok s => exact ih (pre ++ [c]) s _

end Loops

end ByteCursor

/-! ## The scan of the bytes -/

namespace Scan

open ByteCursor

variable {text : String} {pre post : List Char}

/-- The rounds of the scan are the moves of the machine on the characters that are left. The
    characters they are handed are those of the text, in order, and all of them if every one can
    be read. -/
theorem exists_fed (lx : Lexicon) (hfit : Fits text) (h : text.toList = pre ++ post) (s : State)
    (done : Array Token) (fed : List (Nat × Char)) :
    ∃ more, feed (recording (round lx)) (fun p cur => (conclude lx p.1 cur, p.2)) text pre post
        ((s, done), fed) = (run lx post (Position.start.after pre) s done, fed ++ more) ∧
      more <+: Text.charOffsets (Text.byteLength pre) post ∧
      ∀ q, Progress.readAll lx ⟨Position.start.after pre, s, done⟩ post = .ok q →
        more = Text.charOffsets (Text.byteLength pre) post := by
  induction post generalizing pre s done fed with
  | nil =>
    refine ⟨[], ?_, List.nil_prefix, fun _ _ => rfl⟩
    rw [feed, conclude, view_placed (hfit.at h) h, run, List.append_nil]
    rfl
  | cons c post ih =>
    have hview : (placed text pre).view = ⟨[c], Position.start.after pre⟩ :=
      view_placed (hfit.at h) h
    rw [feed, recording, round, run, step_cursor, hview, placed_offset, Text.charOffsets_cons,
      Progress.readAll_cons, Progress.read]
    simp only
    cases hnext : (s.step lx ⟨[c], Position.start.after pre⟩ c).next with
    | error e =>
      refine ⟨[(Text.byteLength pre, c)], rfl, ?_, ?_⟩
      · exact List.prefix_append [_] _
      · intro q hq
        cases hq
    | ok s' =>
      have hpre : text.toList = (pre ++ [c]) ++ post := by simp [h]
      obtain ⟨more, hfeed, hmore, hall⟩ := ih hpre s'
        (addToken done (s.step lx ⟨[c], Position.start.after pre⟩ c).emitted)
        (fed ++ [(Text.byteLength pre, c)])
      have hnextOffset : Text.byteLength (pre ++ [c]) = Text.byteLength pre + c.utf8Size := by simp
      rw [Position.after_concat, List.append_assoc, List.singleton_append] at hfeed
      rw [Position.after_concat] at hall
      rw [hnextOffset] at hmore hall
      refine ⟨(Text.byteLength pre, c) :: more, hfeed, ?_, ?_⟩
      · exact List.cons_prefix_cons.mpr ⟨rfl, hmore⟩
      · intro q hq
        rw [hall q hq]

/-- A scan of the bytes that are left, if it ends, is the scan of the characters that are left. -/
theorem eq_run_of_loop (lx : Lexicon) (hfit : FitsAt pre) (h : text.toList = pre ++ post)
    {s : State} {done : Array Token} {o : Outcome}
    (hloop : (placed text pre).loop (round lx) (conclude lx) (s, done) = .ok o) :
    o = run lx post (Position.start.after pre) s done := by
  induction post generalizing pre s done with
  | nil =>
    rw [loop_of_end (current?_placed h), conclude, view_placed hfit h] at hloop
    rw [run]
    exact (Except.ok.inj hloop).symm
  | cons c post ih =>
    have hcur : (placed text pre).current? = some c := current?_placed h
    have hview : (placed text pre).view = ⟨[c], Position.start.after pre⟩ := view_placed hfit h
    rw [loop_of_current hcur, round, hview] at hloop
    rw [run, step_cursor]
    simp only at hloop ⊢
    cases hnext : (s.step lx ⟨[c], Position.start.after pre⟩ c).next with
    | error e =>
      rw [hnext] at hloop
      exact (Except.ok.inj hloop).symm
    | ok s' =>
      rw [hnext] at hloop
      cases hadvance : (placed text pre).advance with
      | error e =>
        rw [hadvance] at hloop
        cases hloop
      | ok next =>
        rw [hadvance] at hloop
        have hfit' := fitsAt_of_advance hfit h hadvance
        obtain rfl : placed text (pre ++ [c]) = next :=
          Except.ok.inj ((advance_placed hfit' h).symm.trans hadvance)
        have hrest := ih hfit' (by simp [h]) hloop
        rwa [Position.after_concat] at hrest

end Scan

/-- For any text whatever, the scan of the bytes runs out of counters or is the scan of the text. -/
theorem Lexicon.eq_scan_of_scanBytes {lx : Lexicon} {text : String} {o : Scan.Outcome}
    (h : lx.scanBytes text = .ok o) : o = lx.scan text := by
  have hstart : ByteCursor.FitsAt [] := ⟨by decide, by decide⟩
  exact Scan.eq_run_of_loop lx hstart (List.nil_append _).symm h

/-- The byte cursor visits every character once and agrees with the line table, as long as the
    number of lines and the length of every stretch without a line end leave room in 32 bits. After
    `k` moves it stands at the byte offset of the character number `k`, or at the end if there are
    fewer; moves at the end change nothing. So the scan of the bytes gives what the scan of the text
    gives, and the rounds of its loop are handed the characters in order, every one of them unless
    one is refused. -/
theorem byte_cursor_visits_every_character (s : Source) (hlines : s.lineCount < UInt32.size - 1)
    (hcolumns : ∀ line, line <:+: s.chars → '\n' ∉ line → line.length < UInt32.size - 1) :
    (∀ k, ∃ cur, ByteCursor.advanceBy k (.ofText s.content) = .ok cur ∧
      cur.offset = Text.byteLength (s.chars.take k) ∧
      cur.current? = s.chars[k]? ∧
      s.lineCol cur.offset = (cur.line.toNat, cur.column.toNat) ∧
      cur.span = ⟨cur.offset, Text.byteLength (s.chars.take (k + 1)), cur.line.toNat,
        cur.column.toNat⟩ ∧
      s.snippet cur.span = .ok (String.ofList s.chars[k]?.toList) ∧
      (s.chars.length ≤ k → cur.advance = .ok cur) ∧
      Cursor.advanceBy k (.ofText s.content) = ⟨s.chars.drop k, cur.position⟩) ∧
    ∀ lx : Lexicon, lx.scanBytes s.content = .ok (lx.scan s.content) ∧
      ∃ fed, (ByteCursor.ofText s.content).loop (ByteCursor.recording (Scan.round lx))
          (fun p cur => (Scan.conclude lx p.1 cur, p.2)) ((.initial, #[]), []) =
            .ok (lx.scan s.content, fed) ∧
        fed <+: Text.charOffsets 0 s.chars ∧
        ∀ p, Scan.Progress.initial.readAll lx s.chars = .ok p →
          fed = Text.charOffsets 0 s.chars := by
  have hfit : ByteCursor.Fits s.content := ByteCursor.fits_of_lines hlines hcolumns
  have hstart := ByteCursor.ofText_eq_placed s.content
  refine ⟨fun k => ?_, fun lx => ?_⟩
  · have hsplit : s.chars = s.chars.take k ++ s.chars.drop k := (List.take_append_drop k _).symm
    have hpos : (ByteCursor.placed s.content (s.chars.take k)).position = _ :=
      ByteCursor.position_placed (hfit.at hsplit)
    have hspan := ByteCursor.span_placed hfit hsplit
    have hone : (s.chars.drop k).take 1 = s.chars[k]?.toList := by
      rw [← List.head?_drop]
      cases s.chars.drop k <;> rfl
    have hnext : s.chars.take (k + 1) = s.chars.take k ++ (s.chars.drop k).take 1 :=
      List.take_add
    refine ⟨ByteCursor.placed s.content (s.chars.take k), ?_, ?_, ?_, ?_, ?_, ?_, ?_, ?_⟩
    · rw [hstart]
      exact ByteCursor.advanceBy_placed hfit k rfl
    · exact ByteCursor.placed_offset
    · rw [ByteCursor.current?_placed hsplit, List.head?_drop]
    · rw [ByteCursor.placed_offset, Source.lineCol_boundary hsplit, ← hpos]
      rfl
    · rw [hspan, hnext, Text.byteLength_append, ← hpos, ByteCursor.placed_offset]
      rfl
    · rw [hspan, ← hone]
      apply Source.snippet_boundary
      rw [← hnext, List.take_append_drop]
    · intro hk
      rw [List.take_of_length_le hk]
      exact ByteCursor.advance_placed_end (List.append_nil _).symm
    · rw [hpos]
      exact Cursor.advanceBy_eq k s.chars .start
  · have hrun := Scan.exists_fed lx hfit (List.nil_append s.chars).symm .initial #[] []
    obtain ⟨fed, hfeed, hprefix, hall⟩ := hrun
    constructor
    · rw [Lexicon.scanBytes, hstart, ByteCursor.loop_placed hfit (List.nil_append s.chars).symm,
        ← ByteCursor.feed_recording [] s.chars _ [], hfeed]
      rfl
    · refine ⟨fed, ?_, hprefix, hall⟩
      rw [hstart, ByteCursor.loop_placed hfit (List.nil_append s.chars).symm, hfeed]
      rfl

/-- The second character of the second line stands behind two bytes for the `λ` before it. -/
theorem byte_cursor_after_lambda :
    (Source.mk "sets" "ab\nλ∈x").lineCount < UInt32.size - 1 ∧
      ∃ cur, ByteCursor.advanceBy 4 (.ofText "ab\nλ∈x") = .ok cur ∧ cur.offset = 5 ∧
        cur.current? = some '∈' ∧ (cur.line.toNat, cur.column.toNat) = (2, 2) ∧
        cur.span = ⟨5, 8, 2, 2⟩ := by
  have hlines : (Source.mk "sets" "ab\nλ∈x").lineCount < UInt32.size - 1 := by decide
  have hlength : (Source.mk "sets" "ab\nλ∈x").chars.length < UInt32.size - 1 := by decide
  have hvisits := byte_cursor_visits_every_character ⟨"sets", "ab\nλ∈x"⟩ hlines
    fun line hline _ => Nat.lt_of_le_of_lt hline.length_le hlength
  obtain ⟨cur, hadv, hoff, hcur, hplace, hspan, -⟩ := hvisits.1 4
  have hfive : cur.offset = 5 := hoff.trans (by decide)
  rw [hfive] at hplace hspan
  have htwo : (cur.line.toNat, cur.column.toNat) = (2, 2) := hplace.symm.trans (by decide)
  obtain ⟨hline, hcolumn⟩ := Prod.mk.inj htwo
  rw [hline, hcolumn] at hspan
  exact ⟨hlines, cur, hadv, hfive, hcur.trans (by decide), htwo, hspan.trans (by decide)⟩

end Lexis
