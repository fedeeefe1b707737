import Lexis.Proofs.Scan.Invariant
import Mathlib.Data.List.MinMax

/-!
  Lexis.Proofs.LongestMatch

  Reading operators without going back, compared with the textbook rule. `longestMatch` is the scan
  with one thing changed: where an operator may begin, it looks ahead for the longest operator that
  the rest of the text begins with and takes it whole. The machine reads on for as long as some
  operator goes on, and an operator ends only before a character that no operator goes on with
  (`scan_operator_iff`); such an operator is the longest one. So whatever the scan accepts is
  accepted by the textbook rule with the same tokens. The converse holds when every beginning of an
  operator is an operator: then the longest one can always be left where it ends.
-/

namespace Lexis

/-! ## The longest operator -/

namespace Vocabulary

variable {v : Vocabulary} {o : String} {cs rest : List Char}

/-- The longest operator that a text begins with. -/
def longestOperator? (v : Vocabulary) (cs : List Char) : Option String :=
  (v.operators.filter fun o => o.toList.isPrefixOf cs).argmax String.length

/-- No operator goes on with `o` and the first character of `rest`. -/
def EndsBefore (v : Vocabulary) (o : String) (rest : List Char) : Prop :=
  ∀ c, rest.head? = some c → ∀ o' ∈ v.operators, ¬o.toList ++ [c] <+: o'.toList

/-- Every beginning of an operator is an operator. -/
def PrefixClosed (v : Vocabulary) : Prop :=
  ∀ o ∈ v.operators, ∀ cs, cs ≠ [] → cs <+: o.toList → String.ofList cs ∈ v.operators

instance (v : Vocabulary) : Decidable v.PrefixClosed :=
  decidable_of_iff (∀ o ∈ v.operators, ∀ cs ∈ o.toList.inits,
      cs ≠ [] → String.ofList cs ∈ v.operators) <| by
    simp only [PrefixClosed, List.mem_inits]
    exact ⟨fun h o ho cs hne hpre => h o ho cs hpre hne, fun h o ho cs hpre hne => h o ho cs hne hpre⟩

theorem longestOperator?_eq_some_iff :
    v.longestOperator? cs = some o ↔ o ∈ v.operators ∧ o.toList <+: cs ∧
      ∀ o' ∈ v.operators, o'.toList <+: cs → o'.length ≤ o.length := by
  have hmem : ∀ x, x ∈ v.operators.filter (fun o => o.toList.isPrefixOf cs) ↔
      x ∈ v.operators ∧ x.toList <+: cs := by simp
  constructor
  · intro h
    obtain ⟨ho, hpre⟩ := (hmem o).mp (List.argmax_mem h)
    exact ⟨ho, hpre, fun o' ho' hpre' => List.le_of_mem_argmax ((hmem o').mpr ⟨ho', hpre'⟩) h⟩
  · rintro ⟨ho, hpre, hmax⟩
    have hin := (hmem o).mpr ⟨ho, hpre⟩
    cases h : v.longestOperator? cs with
    | none => simp [List.argmax_eq_none.mp h] at hin
    | some x =>
      obtain ⟨hx, hxpre⟩ := (hmem x).mp (List.argmax_mem h)
      -- Two beginnings of one text with the same length are equal.
      have hlen : x.length = o.length := Nat.le_antisymm (hmax x hx hxpre)
        (List.le_of_mem_argmax hin h)
      have hle : x.toList <+: o.toList :=
        List.prefix_of_prefix_length_le hxpre hpre (by simp [String.length_toList, hlen])
      rw [String.toList_inj.mp (hle.eq_of_length (by simp [String.length_toList, hlen]))]

/-- An operator that ends where none goes on is the longest one. -/
theorem longestOperator?_of_endsBefore (ho : o ∈ v.operators) (he : v.EndsBefore o rest) :
    v.longestOperator? (o.toList ++ rest) = some o := by
  refine longestOperator?_eq_some_iff.mpr ⟨ho, List.prefix_append _ _, fun o' ho' hpre => ?_⟩
  by_contra hlt
  have hlen : o.toList.length ≤ o'.toList.length := by
    rw [String.length_toList, String.length_toList]
    omega
  -- A longer one would go on with `o` and the next character.
  obtain ⟨es, hes⟩ := List.prefix_of_prefix_length_le (List.prefix_append _ _) hpre hlen
  cases es with
  | nil =>
    rw [List.append_nil, String.toList_inj] at hes
    exact hlt (by rw [hes])
  | cons e es =>
    have hrest : e :: es <+: rest := by
      rw [← hes] at hpre
      exact (List.prefix_append_right_inj _).mp hpre
    obtain ⟨post, hpost⟩ := hrest
    exact he e (by simp [← hpost]) o' ho' ⟨es, by simpa using hes⟩

/-- Where every beginning of an operator is an operator, the longest one ends where none goes on. -/
theorem PrefixClosed.endsBefore (hv : v.PrefixClosed)
    (h : v.longestOperator? (o.toList ++ rest) = some o) : v.EndsBefore o rest := by
  intro c hc o' ho' hpre
  obtain ⟨-, -, hmax⟩ := longestOperator?_eq_some_iff.mp h
  obtain ⟨tail, htail⟩ := List.head?_eq_some_iff.mp hc
  have hlonger := hmax _ (hv o' ho' (o.toList ++ [c]) (by simp) hpre) ⟨tail, by simp [htail]⟩
  simp only [String.length_ofList, List.length_append, String.length_toList,
    List.length_singleton] at hlonger
  omega

end Vocabulary

namespace Scan

/-! ## The textbook rule -/

namespace Progress

/-- The operator `o` begins with `c` at the place reached and has become a token, after the lexeme
    at hand if there was one. -/
def takeOperator (lx : Lexicon) (p : Progress) (c : Char) (o : String) : Progress :=
  let cur : Cursor := ⟨[c], p.position⟩
  let stop := p.position.after o.toList
  ⟨stop, ⟨.gap, o, .int, cur.span⟩,
    (addToken p.tokens (p.state.step lx cur c).emitted).push
      ⟨o, .operator, cur.span.withStop stop.offset⟩⟩

end Progress

/-- The scan with look-ahead for operators. An operator may begin at every operator character but
    the one after a decimal point, where only a digit can stand; all other characters are read as
    in the scan. -/
def longestMatch (v : Vocabulary) (lx : Lexicon) (p : Progress) :
    List Char → Except LexError (List Token)
  | [] => p.close lx
  | c :: rest =>
    if lx.classify c = .operator ∧ p.state.mode ≠ .fraction then
      match v.longestOperator? (c :: rest) with
      | some o => longestMatch v lx (p.takeOperator lx c o) (rest.drop (o.length - 1))
      | none => .error (p.state.problem ⟨[c], p.position⟩
          (.invalidOperator .noOperatorStartsWith) (.char c))
    else
      match p.read lx c with
      | .ok q => longestMatch v lx q rest
      | .error e => .error e
termination_by cs => cs.length
decreasing_by
  all_goals simp only [List.length_drop, List.length_cons]; omega

end Scan

/-- The tokens of a text by the textbook rule. -/
def Lexicon.tokenizeLongest (lx : Lexicon) (v : Vocabulary) (text : String) :
    Except LexError (List Token) :=
  Scan.longestMatch v lx .initial text.toList

namespace Scan

variable {lx : Lexicon} {v : Vocabulary} {p q : Progress} {c : Char} {ts : List Token}
  {rest : List Char}

/-! ## Reading one operator -/

theorem eq_operator_of_accept? {m : Mode} {k : NumberKind} {kind : TokenKind}
    (ha : m.accept? lx k = some kind) (hop : m.firstClass = .operator) : kind = .operator :=
  TokenKind.firstClass_eq_operator_iff.mp ((accept?_firstClass ha).trans hop)

/-- A scan that succeeds from inside an operator reads it to an end before which none goes on. -/
theorem exists_end_of_operator (hr : lx.Represents v)
    (hw : Within lx p.state.mode p.state.kind p.state.lexeme.toList)
    (hop : p.state.mode.firstClass = .operator) (hts : p.scan lx rest = .ok ts) :
    ∃ es post q, rest = es ++ post ∧ p.readAll lx es = .ok q ∧
      q.state.lexeme.toList = p.state.lexeme.toList ++ es ∧ q.state.start = p.state.start ∧
      q.tokens = p.tokens ∧ q.state.lexeme ∈ v.operators ∧
      v.EndsBefore q.state.lexeme post ∧ (q.closed .operator).scan lx post = .ok ts := by
  induction rest generalizing p with
  | nil =>
    cases ha : p.state.mode.accept? lx p.state.kind with
    | none => simp [Progress.scan_nil, Progress.close_refused hw.mode_ne_gap ha] at hts
    | some kind =>
      obtain rfl := eq_operator_of_accept? ha hop
      exact ⟨[], [], p, rfl, rfl, by simp, rfl, rfl, isLexeme_of_accept? hr hw ha,
        by simp [Vocabulary.EndsBefore], by rw [← Progress.scan_nil_closed hw.mode_ne_gap ha, hts]⟩
  | cons c rest ih =>
    rcases Progress.read_within_cases hw c with
      ⟨m, k, hn, hok⟩ | ⟨kind, ha, hn, -, hclosed⟩ | herr
    · rw [Progress.scan_cons, hok] at hts
      have hw' : Within lx m k (p.extended c m k).state.lexeme.toList := by
        simpa [Progress.extended] using hw.next? hn
      obtain ⟨es, post, q, rfl, hread, hlex, hrest⟩ :=
        ih (p := p.extended c m k) hw' ((next?_firstClass hn).trans hop) hts
      refine ⟨c :: es, post, q, rfl, ?_, by simpa [Progress.extended] using hlex, hrest⟩
      rw [Progress.readAll_cons, hok]
      exact hread
    · obtain rfl := eq_operator_of_accept? ha hop
      refine ⟨[], c :: rest, p, rfl, rfl, by simp, rfl, rfl, isLexeme_of_accept? hr hw ha, ?_,
        by rw [← Progress.scan_congr hclosed, hts]⟩
      intro b hb
      obtain rfl : c = b := by simpa using hb
      exact (next?_eq_none_iff_of_operator hr hw hop).mp hn
    · simp [Progress.scan_cons, herr, Except.bind] at hts

/-- What may not end an operator is refused between tokens too. -/
theorem read_closed_of_not_yields (hop : p.state.mode.firstClass = .operator)
    (hy : ¬p.state.mode.Yields (lx.classify c)) :
    ∃ e, (p.closed .operator).read lx c = .error e := by
  have hb : Text.isBlank c ≠ true := fun hb =>
    hy (Or.inl (Lexicon.classify_eq_whitespace_iff.mpr hb))
  have hm : Mode.begin? lx c = none := by
    unfold Mode.begin?
    unfold Mode.Yields at hy
    split <;> simp_all
  exact ⟨_, Progress.read_refused_gap rfl hb hm⟩

/-- An operator before which none goes on is read to its end, and what follows it is read as
    between tokens. -/
theorem scan_of_end_of_operator (hr : lx.Represents v)
    (hw : Within lx p.state.mode p.state.kind p.state.lexeme.toList)
    (hop : p.state.mode.firstClass = .operator) {o : String} {es post : List Char}
    (ho : o ∈ v.operators) (hes : o.toList = p.state.lexeme.toList ++ es)
    (he : v.EndsBefore o post) :
    ∃ q, p.readAll lx es = .ok q ∧ q.state.lexeme = o ∧ q.state.start = p.state.start ∧
      q.tokens = p.tokens ∧
      ∀ ts, (q.closed .operator).scan lx post = .ok ts → p.scan lx (es ++ post) = .ok ts := by
  have hlex : v.IsLexeme o .operator := ho
  induction es generalizing p with
  | nil =>
    obtain rfl : p.state.lexeme = o := String.toList_inj.mp (by simpa using hes.symm)
    have ha := accept?_of_isLexeme hr hw hlex
    refine ⟨p, rfl, rfl, rfl, rfl, fun ts hts => ?_⟩
    cases post with
    | nil =>
      rw [← hts]
      exact Progress.scan_nil_closed hw.mode_ne_gap ha
    | cons c post =>
      have hn := (next?_eq_none_iff_of_operator hr hw hop).mpr (he c rfl)
      by_cases hy : p.state.mode.Yields (lx.classify c)
      · rw [← hts]
        exact Progress.scan_congr (Progress.read_handover hw ha hn hy)
      · obtain ⟨e, herr⟩ := read_closed_of_not_yields hop hy
        simp [Progress.scan_cons, herr, Except.bind] at hts
  | cons c es ih =>
    obtain ⟨⟨m, k⟩, hn⟩ := Option.isSome_iff_exists.mp (next?_isSome_of_isLexeme hr hw hlex hes)
    have hw' : Within lx m k (p.extended c m k).state.lexeme.toList := by
      simpa [Progress.extended] using hw.next? hn
    obtain ⟨q, hread, hq, hstart, htokens, hscan⟩ := ih (p := p.extended c m k) hw'
      ((next?_firstClass hn).trans hop) (by simpa [Progress.extended] using hes)
    refine ⟨q, ?_, hq, hstart, htokens, fun ts hts => ?_⟩
    · rw [Progress.readAll_cons, Progress.read_next hn]
      exact hread
    · rw [List.cons_append, Progress.scan_cons, Progress.read_next hn]
      exact hscan ts hts

/-! ## Operators between tokens -/

/-- Between tokens, the machine that has read an operator and left it has taken it. -/
theorem closed_eq_takeOperator {m : Mode} {es : List Char} (hg : p.state.mode = .gap)
    (hread : (p.begun c m).readAll lx es = .ok q)
    (hlex : q.state.lexeme.toList = c :: es)
    (hstart : q.state.start = (p.begun c m).state.start)
    (htokens : q.tokens = (p.begun c m).tokens) :
    q.closed .operator = p.takeOperator lx c q.state.lexeme := by
  have hpos : q.position = p.position.after (c :: es) := by
    rw [Progress.position_of_readAll hread]
    rfl
  have hemit : (p.state.step lx ⟨[c], p.position⟩ c).emitted = none := by
    simp [State.step, hg, Progress.stepGap_emitted]
  simp [Progress.closed, Progress.takeOperator, State.token, hemit, addToken, hpos, hlex, hstart,
    htokens, Progress.begun]

theorem scan_operator_iff_of_gap (hr : lx.Represents v) (hg : p.state.mode = .gap)
    (hk : p.state.kind = .int) (hc : lx.classify c = .operator) :
    p.scan lx (c :: rest) = .ok ts ↔ ∃ o post, o ∈ v.operators ∧ c :: rest = o.toList ++ post ∧
      v.EndsBefore o post ∧ (p.takeOperator lx c o).scan lx post = .ok ts := by
  have hbegun : ∀ {m}, Mode.begin? lx c = some m →
      p.scan lx (c :: rest) = (p.begun c m).scan lx rest ∧ m.firstClass = .operator ∧
        Within lx m .int (p.begun c m).state.lexeme.toList := by
    intro m hm
    refine ⟨?_, (begin?_firstClass hm).symm.trans hc, ?_⟩
    · rw [Progress.scan_cons, Progress.read_begin hg hk hm]
      rfl
    · simpa [Progress.begun] using within_of_begin? hm
  constructor
  · intro hts
    cases hm : Mode.begin? lx c with
    | none =>
      have hb : Text.isBlank c ≠ true :=
        mt Lexicon.classify_eq_whitespace_iff.mpr (hc.trans_ne (by decide))
      simp [Progress.scan_cons, Progress.read_refused_gap hg hb hm, Except.bind] at hts
    | some m =>
      obtain ⟨hscan, hop, hw⟩ := hbegun hm
      rw [hscan] at hts
      obtain ⟨es, post, q, rfl, hread, hlex, hstart, htokens, ho, he, hpost⟩ :=
        exists_end_of_operator hr (p := p.begun c m) hw hop hts
      have hlex' : q.state.lexeme.toList = c :: es := by simpa [Progress.begun] using hlex
      refine ⟨q.state.lexeme, post, ho, by simp [hlex'], he, ?_⟩
      rw [← closed_eq_takeOperator hg hread hlex' hstart htokens]
      exact hpost
  · rintro ⟨o, post, ho, hsplit, he, hpost⟩
    have hlex : v.IsLexeme o .operator := ho
    obtain ⟨d, es, hde⟩ := List.exists_cons_of_ne_nil (hlex.toList_ne_nil hr)
    obtain ⟨rfl, rfl⟩ : d = c ∧ rest = es ++ post := by
      rw [hde, List.cons_append, List.cons.injEq] at hsplit
      exact ⟨hsplit.1.symm, hsplit.2⟩
    obtain ⟨m, hm⟩ := Option.isSome_iff_exists.mp (begin?_isSome_of_isLexeme hr hlex hde)
    obtain ⟨hscan, hop, hw⟩ := hbegun hm
    obtain ⟨q, hread, rfl, hstart, htokens, hq⟩ :=
      scan_of_end_of_operator hr (p := p.begun d m) hw hop ho
        (by simpa [Progress.begun] using hde) he
    rw [hscan]
    apply hq ts
    rw [closed_eq_takeOperator hg hread hde hstart htokens]
    exact hpost

/-! ## The two rules in step -/

/-- The machine stands between tokens, or inside a word or a number. -/
inductive Clear (lx : Lexicon) (p : Progress) : Prop where
  | between : p.state.mode = .gap → p.state.kind = .int → Clear lx p
  | within : Within lx p.state.mode p.state.kind p.state.lexeme.toList →
      p.state.mode.firstClass ≠ .operator → Clear lx p

/-- A character that begins no operator keeps it so. -/
theorem Clear.read (h : Clear lx p) (hc : ¬(lx.classify c = .operator ∧ p.state.mode ≠ .fraction))
    (hread : p.read lx c = .ok q) : Clear lx q := by
  have hgap : ∀ p : Progress, p.state.mode = .gap → p.state.kind = .int →
      lx.classify c ≠ .operator → p.read lx c = .ok q → Clear lx q := by
    intro p hg hk hc hread
    rcases Progress.read_gap_cases lx c hg hk with ⟨-, hok⟩ | ⟨m, hm, hok⟩ | herr
    · obtain rfl : p.skip c = q := Except.ok.inj (hok.symm.trans hread)
      exact .between hg hk
    · obtain rfl : p.begun c m = q := Except.ok.inj (hok.symm.trans hread)
      refine .within ?_ (begin?_firstClass hm ▸ hc)
      simpa [Progress.begun] using within_of_begin? hm
    · simp [herr] at hread
  cases h with
  | between hg hk => exact hgap p hg hk (fun hop => hc ⟨hop, by simp [hg]⟩) hread
  | within hw hop =>
    rcases Progress.read_within_cases hw c with ⟨m, k, hn, hok⟩ | ⟨kind, ha, -, -, hclosed⟩ | herr
    · obtain rfl : p.extended c m k = q := Except.ok.inj (hok.symm.trans hread)
      refine .within ?_ ((next?_firstClass hn).trans_ne hop)
      simpa [Progress.extended] using hw.next? hn
    · -- A lexeme that ends here is no decimal point.
      have hf : p.state.mode ≠ .fraction := by
        rintro hf
        simp [hf, Mode.accept?] at ha
      exact hgap (p.closed kind) rfl rfl (fun hop => hc ⟨hop, hf⟩) (hclosed ▸ hread)
    · simp [herr] at hread

/-- At an operator character, a word or a number at hand is complete. -/
theorem Clear.exists_between (h : Clear lx p) (hc : lx.classify c = .operator)
    (hf : p.state.mode ≠ .fraction) :
    ∃ q : Progress, q.state.mode = .gap ∧ q.state.kind = .int ∧ p.read lx c = q.read lx c ∧
      ∀ o, p.takeOperator lx c o = q.takeOperator lx c o := by
  cases h with
  | between hg hk => exact ⟨p, hg, hk, rfl, fun _ => rfl⟩
  | within hw hop =>
    have hnext : p.state.mode.next? lx p.state.kind c = none ∧
        ∃ kind, p.state.mode.accept? lx p.state.kind = some kind := by
      generalize p.state.lexeme.toList = cs at hw
      cases hm : p.state.mode with
      | gap => exact absurd hm hw.mode_ne_gap
      | fraction => exact absurd hm hf
      | operator node => simp [hm, Mode.firstClass] at hop
      | word keyword => simp [Mode.next?, Mode.accept?, hc]
      | number => simp [Mode.next?, Mode.accept?, hc]
    obtain ⟨hn, kind, ha⟩ := hnext
    have hy : p.state.mode.Yields (lx.classify c) := Or.inr (Or.inl hc)
    refine ⟨p.closed kind, rfl, rfl, Progress.read_handover hw ha hn hy, fun o => ?_⟩
    -- The token that the move completes is the one that closing completes.
    have hemit : ((p.closed kind).state.step lx ⟨[c], (p.closed kind).position⟩ c).emitted =
        none := Progress.stepGap_emitted _ _ _
    simp only [Progress.takeOperator, Progress.step_handover hw ha hn hy, hemit]
    rfl

theorem scan_operator_iff (hr : lx.Represents v) (h : Clear lx p)
    (hc : lx.classify c = .operator) (hf : p.state.mode ≠ .fraction) :
    p.scan lx (c :: rest) = .ok ts ↔ ∃ o post, o ∈ v.operators ∧ c :: rest = o.toList ++ post ∧
      v.EndsBefore o post ∧ (p.takeOperator lx c o).scan lx post = .ok ts := by
  obtain ⟨q, hg, hk, hread, htake⟩ := h.exists_between hc hf
  simp only [Progress.scan_congr hread, htake]
  exact scan_operator_iff_of_gap hr hg hk hc

/-- The rest of a text after an operator that it begins with. -/
theorem eq_drop_of_operator (hr : lx.Represents v) {o : String} {post : List Char}
    (ho : o ∈ v.operators) (h : c :: rest = o.toList ++ post) :
    post = rest.drop (o.length - 1) := by
  have hlex : v.IsLexeme o .operator := ho
  obtain ⟨d, es, hde⟩ := List.exists_cons_of_ne_nil (hlex.toList_ne_nil hr)
  have hlen : o.length = es.length + 1 := by rw [← String.length_toList, hde]; rfl
  rw [hde, List.cons_append, List.cons.injEq] at h
  simp [hlen, h.2]

/-- What the scan accepts, the textbook rule accepts with the same tokens. -/
theorem longestMatch_of_scan (hr : lx.Represents v) (h : Clear lx p) {cs : List Char}
    (hts : p.scan lx cs = .ok ts) : longestMatch v lx p cs = .ok ts := by
  fun_induction longestMatch v lx p cs with
  | case1 p => exact hts
  | case2 p c rest hc o ho ih =>
    -- The operator that the scan reads is the longest one, so both go on after it.
    obtain ⟨o', post, hmem, hsplit, he, hpost⟩ := (scan_operator_iff hr h hc.1 hc.2).mp hts
    have hlong := Vocabulary.longestOperator?_of_endsBefore hmem he
    rw [← hsplit, ho] at hlong
    obtain rfl : o = o' := Option.some.inj hlong
    rw [eq_drop_of_operator hr hmem hsplit] at hpost
    exact ih (.between rfl rfl) hpost
  | case3 p c rest hc ho =>
    obtain ⟨o', post, hmem, hsplit, he, -⟩ := (scan_operator_iff hr h hc.1 hc.2).mp hts
    have hlong := Vocabulary.longestOperator?_of_endsBefore hmem he
    simp [← hsplit, ho] at hlong
  | case4 p c rest hc q hread ih =>
    rw [Progress.scan_cons, hread] at hts
    exact ih (h.read hc hread) hts
  | case5 p c rest hc e hread => simp [Progress.scan_cons, hread, Except.bind] at hts

/-- Where every beginning of an operator is an operator, the scan accepts what the textbook rule
    accepts. -/
theorem scan_of_longestMatch (hr : lx.Represents v) (hp : v.PrefixClosed) (h : Clear lx p)
    {cs : List Char} (hts : longestMatch v lx p cs = .ok ts) : p.scan lx cs = .ok ts := by
  fun_induction longestMatch v lx p cs with
  | case1 p => exact hts
  | case2 p c rest hc o ho ih =>
    obtain ⟨hmem, ⟨post, hsplit⟩, -⟩ := Vocabulary.longestOperator?_eq_some_iff.mp ho
    rw [← hsplit] at ho
    refine (scan_operator_iff hr h hc.1 hc.2).mpr ⟨o, post, hmem, hsplit.symm, hp.endsBefore ho, ?_⟩
    rw [eq_drop_of_operator hr hmem hsplit.symm]
    exact ih (.between rfl rfl) hts
  | case3 p c rest hc ho => simp at hts
  | case4 p c rest hc q hread ih =>
    rw [Progress.scan_cons, hread]
    exact ih (h.read hc hread) hts
  | case5 p c rest hc e hread => simp at hts

end Scan

/-! ## Operators in a layout -/

namespace Layout

variable {lx : Lexicon} {v : Vocabulary} {x : Piece} {xs : List Piece} {trail : String}

theorem Valid.of_cons (h : Valid v ⟨x :: xs, trail⟩) : Valid v ⟨xs, trail⟩ where
  gaps y hy := h.gaps y (List.mem_cons_of_mem x hy)
  trail := h.trail
  lexemes y hy := h.lexemes y (List.mem_cons_of_mem x hy)
  meets := (List.isChain_cons.mp h.meets).2

/-- What stands behind an operator does not go on with it. -/
theorem Valid.endsBefore (hr : lx.Represents v) (h : Valid v ⟨x :: xs, trail⟩)
    (hk : x.kind = .operator) : v.EndsBefore x.value (chars ⟨xs, trail⟩) := by
  intro c hc o ho hpre
  have hop : lx.classify c = .operator :=
    hr.classify_eq_operator_iff.mpr ⟨o, ho, hpre.subset (by simp)⟩
  -- White space is part of no operator.
  have hblank : Text.isBlank c ≠ true :=
    mt Lexicon.classify_eq_whitespace_iff.mpr (hop.trans_ne (by decide))
  cases xs with
  | nil =>
    have hmem : c ∈ trail.toList := List.mem_of_head? (by simpa [chars] using hc)
    exact hblank (h.trail c hmem)
  | cons y ys =>
    have hlex := h.lexemes y (by simp)
    obtain ⟨d, ds, hds⟩ := List.exists_cons_of_ne_nil (hlex.toList_ne_nil hr)
    cases hgap : y.gap.toList with
    | cons b bs =>
      obtain rfl : b = c := by simpa [chars, Piece.chars, hgap] using hc
      exact hblank (h.gaps y (by simp) b (by simp [hgap]))
    | nil =>
      -- The next lexeme touches the operator and begins with an operator character.
      obtain rfl : d = c := by simpa [chars, Piece.chars, hgap, hds] using hc
      have hhead : y.value.toList.head? = some d := by simp [hds]
      have hy : y.kind = .operator := by
        rw [← TokenKind.firstClass_eq_operator_iff, ← hlex.classify_head hr hhead, hop]
      have hmeets := (List.isChain_cons_cons.mp h.meets).1
      have hadmits := hmeets (String.toList_eq_nil_iff.mp hgap) d hhead
      exact hadmits.2 hk hy o ho hpre

theorem exists_place_of_operator (hr : lx.Represents v) {p : Position} {t : Token}
    (h : Valid v ⟨xs, trail⟩) (ht : t ∈ tokensFrom p xs) (hk : t.kind = .operator) :
    ∃ pre post, chars ⟨xs, trail⟩ = pre ++ (t.value.toList ++ post) ∧
      t.span.start = p.offset + Text.byteLength pre ∧ t.value ∈ v.operators ∧
      v.EndsBefore t.value post := by
  induction xs generalizing p with
  | nil => simp [tokensFrom] at ht
  | cons x xs ih =>
    rw [tokensFrom, List.mem_cons] at ht
    rcases ht with rfl | ht
    · have hlex : v.IsLexeme x.value .operator := hk ▸ h.lexemes x (by simp)
      exact ⟨x.gap.toList, chars ⟨xs, trail⟩, by simp [chars, Piece.chars, Piece.token],
        by simp [Piece.token], hlex, h.endsBefore hr hk⟩
    · obtain ⟨pre, post, hchars, hstart, ho, he⟩ := ih h.of_cons ht
      refine ⟨x.chars ++ pre, post, ?_, ?_, ho, he⟩
      · rw [List.append_assoc, ← hchars]
        simp [chars]
      · simp [hstart, Nat.add_assoc]

end Layout

open Scan

variable {v : Vocabulary}

/-- The scan against the textbook rule: what the scan accepts, the rule accepts with the same
    tokens, and every operator is the longest one at its place; where every beginning of an
    operator is an operator, the two accept the same texts. -/
theorem tokenize_refines_longest_match (hv : v.validate = .ok ()) :
    ∃ lx, Lexicon.compile v = .ok lx ∧ ∀ text,
      (∀ ts, lx.tokenize text = .ok ts → lx.tokenizeLongest v text = .ok ts ∧
        ∀ t ∈ ts, t.kind = .operator → ∃ rest,
          Text.dropBytes? t.span.start text.toList = some rest ∧
            v.longestOperator? rest = some t.value) ∧
      (v.PrefixClosed → ∀ ts,
        lx.tokenize text = .ok ts ↔ lx.tokenizeLongest v text = .ok ts) := by
  obtain ⟨lx, hc, hr⟩ := Lexicon.compile_represents hv
  have hstart : Clear lx Progress.initial := .between rfl rfl
  refine ⟨lx, hc, fun text => ⟨fun ts hts => ⟨?_, fun t ht hk => ?_⟩, fun hp ts => ⟨?_, ?_⟩⟩⟩
  · rw [tokenize_eq] at hts
    exact longestMatch_of_scan hr hstart hts
  · obtain ⟨d, hd, rfl, rfl⟩ := (tokenize_eq_ok_iff hr text ts).mp hts
    obtain ⟨pre, post, hchars, hoff, ho, he⟩ := Layout.exists_place_of_operator hr hd ht hk
    refine ⟨t.value.toList ++ post, ?_, Vocabulary.longestOperator?_of_endsBefore ho he⟩
    rw [Layout.toList_text, hchars, hoff]
    simpa [Position.start] using Text.dropBytes?_append pre (t.value.toList ++ post)
  · intro hts
    rw [tokenize_eq] at hts
    exact longestMatch_of_scan hr hstart hts
  · intro hts
    rw [tokenize_eq]
    exact scan_of_longestMatch hr hp hstart hts

/-- With the operators `<` and `<<=` alone, the textbook rule goes back over the second `<` of a text
    that the scan refuses. -/
example : (Lexicon.compile ⟨[], ["<", "<<="]⟩).toOption.map (fun lx =>
    ((lx.tokenizeLongest ⟨[], ["<", "<<="]⟩ "<<").toOption.map (List.map Token.value),
      (lx.tokenize "<<").toOption.map (List.map Token.value))) =
    some (some ["<", "<"], none) := by
  cbv

/-- The operators `<` and `<<` hold their own beginnings, so both rules cut `<<<` alike, and every
    other text. -/
theorem longest_match_of_angles :
    Vocabulary.validate ⟨[], ["<", "<<"]⟩ = .ok () ∧ Vocabulary.PrefixClosed ⟨[], ["<", "<<"]⟩ ∧
      ∃ lx, Lexicon.compile ⟨[], ["<", "<<"]⟩ = .ok lx ∧
        (∃ ts, lx.tokenizeLongest ⟨[], ["<", "<<"]⟩ "<<<" = .ok ts ∧
          ts.map Token.label = [("<<", .operator), ("<", .operator)]) ∧
        ∀ text ts, lx.tokenize text = .ok ts ↔
          lx.tokenizeLongest ⟨[], ["<", "<<"]⟩ text = .ok ts := by
  have hv : Vocabulary.validate ⟨[], ["<", "<<"]⟩ = .ok () := rfl
  have hp : Vocabulary.PrefixClosed ⟨[], ["<", "<<"]⟩ := by decide
  obtain ⟨lx, hc, h⟩ := tokenize_refines_longest_match hv
  have hrun : (Lexicon.compile ⟨[], ["<", "<<"]⟩).toOption.map (·.tokenize "<<<") =
      some (.ok [⟨"<<", .operator, ⟨0, 2, 1, 1⟩⟩, ⟨"<", .operator, ⟨2, 3, 1, 3⟩⟩]) := rfl
  rw [hc] at hrun
  have hts := Option.some.inj hrun
  exact ⟨hv, hp, lx, hc, ⟨_, ((h "<<<").1 _ hts).1, rfl⟩, fun text => (h text).2 hp⟩

end Lexis
