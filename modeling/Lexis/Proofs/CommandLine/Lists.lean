import Lexis.CommandLine.Arguments
import Lexis.Proofs.Overrides
import Mathlib.Data.List.Forall2
import Mathlib.Data.List.Induction

/-!
  Lexis.Proofs.CommandLine.Lists

  Lists on the command line. A value writes down entries with spaces around them; it is divided at
  every single space, and the empty pieces are dropped later. Everything about the pieces follows
  from one equation, that of a value with a space in it (`entriesOf_append_space`). The values of one
  list may be spread over many arguments: reading an argument adds its pieces to those of its list
  and leaves everything else alone (`Gathers.flag`), so in the end each list has the pieces of all
  its values, in order.
-/

namespace Lexis.CommandLine

/-! ## Values -/

/-- A value writes down entries: with one or more spaces between two of them, and any number of
    spaces before the first and after the last. -/
inductive Writes : List Char → List String → Prop
  | nothing : Writes [] []
  | space {cs : List Char} {xs : List String} (rest : Writes cs xs) : Writes (' ' :: cs) xs
  | last (x : String) : Writes x.toList [x]
  | entry (x : String) {cs : List Char} {xs : List String} (rest : Writes cs xs) :
    Writes (x.toList ++ ' ' :: cs) (x :: xs)

/-- An entry that a value can write down. -/
def IsEntry (x : String) : Prop := x ≠ "" ∧ ' ' ∉ x.toList

/-- The entries are written down in values, one value after the other. -/
def Spreads (values : List String) (xs : List String) : Prop :=
  ∃ parts, List.Forall₂ (fun value part => Writes value.toList part) values parts ∧
    parts.flatten = xs

/-- The entries of a value that is given for a list. -/
def entriesOf (cs : List Char) : List String :=
  Overrides.entries (Given.splitWords (String.ofList cs))

/-- A space divides the entries of a value. -/
theorem entriesOf_append_space (as bs : List Char) :
    entriesOf (as ++ ' ' :: bs) = entriesOf as ++ entriesOf bs := by
  simp only [entriesOf, Given.splitWords, String.toList_ofList, Overrides.entries,
    List.splitOn_append_cons_self, List.map_append, List.filter_append]

theorem entriesOf_nil : entriesOf [] = [] := rfl

theorem entriesOf_entry {x : String} (h : IsEntry x) : entriesOf x.toList = [x] := by
  simp [entriesOf, Given.splitWords, Overrides.entries, List.splitOn_eq_singleton h.2, h.1]

/-- However the entries are spaced, the pieces that are not empty are the entries. -/
theorem Writes.entriesOf_eq {cs : List Char} {xs : List String} (h : Writes cs xs)
    (hxs : ∀ x ∈ xs, IsEntry x) : entriesOf cs = xs := by
  induction h with
  | nothing => exact entriesOf_nil
  | space rest ih => exact (entriesOf_append_space [] _).trans (ih hxs)
  | last x => exact entriesOf_entry (hxs x List.mem_cons_self)
  | entry x rest ih =>
    rw [entriesOf_append_space, entriesOf_entry (hxs x List.mem_cons_self),
      ih fun y hy => hxs y (List.mem_cons_of_mem x hy)]
    rfl

theorem entries_flatMap (values : List String) :
    Overrides.entries (values.flatMap Given.splitWords) =
      values.flatMap fun value => entriesOf value.toList := by
  simp [Overrides.entries, entriesOf, List.filter_flatMap]

theorem Spreads.entries_eq {values xs : List String} (h : Spreads values xs)
    (hxs : ∀ x ∈ xs, IsEntry x) :
    Overrides.entries (values.flatMap Given.splitWords) = xs := by
  obtain ⟨parts, hparts, rfl⟩ := h
  rw [entries_flatMap]
  induction hparts with
  | nil => rfl
  | cons hvalue hparts ih =>
    rw [List.flatten_cons] at hxs ⊢
    rw [List.flatMap_cons, hvalue.entriesOf_eq fun x hx => hxs x (List.mem_append_left _ hx),
      ih fun x hx => hxs x (List.mem_append_right _ hx)]

/-- Entries can be written down in one value, with one space between two of them. -/
theorem writes_intercalate (xs : List String) : Writes (" ".intercalate xs).toList xs := by
  induction xs with
  | nil => exact .nothing
  | cons x xs ih =>
    cases xs with
    | nil => exact String.intercalate_singleton ▸ .last x
    | cons y ys =>
      rw [String.intercalate_cons_cons, String.toList_append, String.toList_append,
        List.append_assoc]
      exact .entry x ih

/-! ## Arguments -/

/-- The name of the option that gives a list. -/
def optionName : WordList → String
  | .keywords => "keywords"
  | .operators => "operators"

/-- What the option stores its values in. -/
def slotOf : WordList → Slot
  | .keywords => .keywords
  | .operators => .operators

/-- A value that is given for a list: in the argument that names the list, or in the next one. -/
structure ListFlag where
  list : WordList
  value : String
  attached : Bool

namespace ListFlag

/-- The arguments that give the value. -/
def arguments (f : ListFlag) : List String :=
  if f.attached then ["--" ++ optionName f.list ++ "=" ++ f.value]
  else ["--" ++ optionName f.list, f.value]

/-- In an argument of its own a value is taken for an option if it begins like one. -/
def IsValue (f : ListFlag) : Prop :=
  f.attached = false → f.value.toList.head? = some '-' → f.value = "-"

/-- The values that are given for a list, in order. -/
def values (flags : List ListFlag) (list : WordList) : List String :=
  (flags.filter (·.list = list)).map ListFlag.value

/-- The pieces that are given for a list; none are if no value is. -/
def pieces (flags : List ListFlag) (list : WordList) : Option (List String) :=
  if values flags list = [] then none else some ((values flags list).flatMap Given.splitWords)

end ListFlag

/-- What has been given, with the pieces of one more value. -/
def Given.add (g : Given) (list : WordList) (value : String) : Given :=
  match list with
  | .keywords => { g with keywords := some (g.keywords.getD [] ++ Given.splitWords value) }
  | .operators => { g with operators := some (g.operators.getD [] ++ Given.splitWords value) }

theorem Given.accept_slotOf (g : Given) (list : WordList) (value : String) :
    g.accept (slotOf list) [value] = .ok (g.add list value) := by
  cases list <;> rfl

/-- A level is being read on which `g` has been given, once the value at hand is examined. -/
structure Gathers (r : Reading) (g : Given) : Prop where
  /-- Options are still understood. -/
  options : r.inputsOnly = false
  /-- No option waits for its value. -/
  idle : r.waiting = false
  /-- There have been no inputs. -/
  noInputs : ∀ values, r.pending ≠ some (.files, values)
  settles : r.settle = .ok ⟨g, none, false, false⟩

variable {r : Reading} {g : Given} {task : Task}

theorem gathers_start : Gathers .start .nothing :=
  ⟨rfl, rfl, nofun, rfl⟩

theorem named?_optionName (h : task ≠ .init) (list : WordList) :
    Level.named? (some task) (optionName list) = some (.slot (slotOf list)) := by
  cases task <;> cases list <;> first | rfl | exact absurd rfl h

/-- An option by name comes down to storing its value. -/
theorem long_optionName (h : task ≠ .init) (r : Reading) (list : WordList)
    (attached : Option String) :
    r.long (some task) (optionName list) attached = r.slot (slotOf list) attached := by
  unfold Reading.long
  rw [named?_optionName h list]

theorem argument_attached (hr : r.inputsOnly = false) (h : task ≠ .init) (list : WordList)
    (value : String) :
    Reading.argument (some task) r ("--" ++ optionName list ++ "=" ++ value) =
      r.slot (slotOf list) (some value) := by
  rw [← long_optionName h, Reading.argument, hr]
  -- The name has no equals sign, so the first one is that before the value.
  cases list with
  | keywords =>
    have harg : ("--" ++ optionName .keywords ++ "=" ++ value).toList =
        '-' :: '-' :: ("keywords".toList ++ '=' :: value.toList) := by simp [optionName]
    rw [harg]
    simp [Reading.splitLong, optionName]
  | operators =>
    have harg : ("--" ++ optionName .operators ++ "=" ++ value).toList =
        '-' :: '-' :: ("operators".toList ++ '=' :: value.toList) := by simp [optionName]
    rw [harg]
    simp [Reading.splitLong, optionName]

theorem argument_detached (hr : r.inputsOnly = false) (h : task ≠ .init) (list : WordList) :
    Reading.argument (some task) r ("--" ++ optionName list) = r.slot (slotOf list) none := by
  rw [← long_optionName h, Reading.argument, hr]
  cases list <;> rfl

theorem argument_word (hr : r.inputsOnly = false) {value : String}
    (h : value.toList.head? = some '-' → value = "-") :
    Reading.argument (some task) r value = r.word (some task) value := by
  by_cases hdash : value = "-"
  · subst hdash
    rw [Reading.argument, hr]
    rfl
  · rw [Reading.argument, hr]
    cases hcs : value.toList with
    | nil => rfl
    | cons c cs =>
      have hc : c ≠ '-' := fun hc => hdash (h (by rw [hcs, hc]; rfl))
      simp [hc]

/-! ## Reading arguments -/

/-- Read arguments of a task. -/
def feed (task : Task) (r : Reading) (args : List String) : Except Usage Reading :=
  args.foldlM (fun r a => Reading.argument (some task) r a) r

theorem feed_cons {r' : Reading} {a : String} (h : Reading.argument (some task) r a = .ok r')
    (args : List String) : feed task r (a :: args) = feed task r' args := by
  rw [feed, List.foldlM_cons, h]
  rfl

theorem feed_append {r' : Reading} {args : List String} (h : feed task r args = .ok r')
    (more : List String) : feed task r (args ++ more) = feed task r' more := by
  rw [feed] at h
  rw [feed, List.foldlM_append, h]
  rfl

/-- A value adds its pieces to those of its list, and does nothing else. -/
theorem Gathers.flag (hg : Gathers r g) (h : task ≠ .init) {f : ListFlag} (hf : f.IsValue) :
    ∃ r', feed task r f.arguments = .ok r' ∧ Gathers r' (g.add f.list f.value) := by
  obtain ⟨list, value, attached⟩ := f
  cases attached with
  | true =>
    refine ⟨⟨g.add list value, none, false, false⟩, ?_, ⟨rfl, rfl, nofun, rfl⟩⟩
    have hslot : r.slot (slotOf list) (some value) =
        .ok ⟨g.add list value, none, false, false⟩ := by
      rw [Reading.slot, hg.settles]
      simp only [Given.accept_slotOf, bind, Except.bind]
      rfl
    rw [ListFlag.arguments, if_pos rfl, feed_cons ((argument_attached hg.options h _ _).trans hslot)]
    rfl
  | false =>
    -- The value waits, and is examined when the next argument arrives.
    refine ⟨⟨g, some (slotOf list, [value]), false, false⟩, ?_, ⟨rfl, rfl, ?_, ?_⟩⟩
    · have hslot : r.slot (slotOf list) none =
          .ok ⟨g, some (slotOf list, []), true, false⟩ := by
        rw [Reading.slot, hg.settles]
        rfl
      rw [ListFlag.arguments, if_neg (by simp),
        feed_cons ((argument_detached hg.options h _).trans hslot),
        feed_cons (argument_word rfl (hf rfl))]
      rfl
    · cases list <;> simp [slotOf]
    · rw [Reading.settle]
      simp only [Given.accept_slotOf]
      rfl

/-- Values add up, in whatever order the lists take turns. -/
theorem Gathers.flags (hg : Gathers r g) (h : task ≠ .init) {flags : List ListFlag}
    (hflags : ∀ f ∈ flags, f.IsValue) :
    ∃ r', feed task r (flags.flatMap ListFlag.arguments) = .ok r' ∧
      Gathers r' (flags.foldl (fun g f => g.add f.list f.value) g) := by
  induction flags generalizing r g with
  | nil => exact ⟨r, rfl, hg⟩
  | cons f flags ih =>
    obtain ⟨r₁, hr₁, hg₁⟩ := hg.flag h (hflags f List.mem_cons_self)
    obtain ⟨r₂, hr₂, hg₂⟩ := ih hg₁ fun f' hf' => hflags f' (List.mem_cons_of_mem f hf')
    exact ⟨r₂, by rw [List.flatMap_cons, feed_append hr₁, hr₂], hg₂⟩

theorem values_concat (flags : List ListFlag) (f : ListFlag) (list : WordList) :
    ListFlag.values (flags ++ [f]) list =
      ListFlag.values flags list ++ if f.list = list then [f.value] else [] := by
  by_cases hlist : f.list = list <;> simp [ListFlag.values, hlist]

theorem pieces_concat (flags : List ListFlag) (f : ListFlag) (list : WordList) :
    ListFlag.pieces (flags ++ [f]) list = if f.list = list then
      some ((ListFlag.pieces flags list).getD [] ++ Given.splitWords f.value)
      else ListFlag.pieces flags list := by
  unfold ListFlag.pieces
  rw [values_concat]
  by_cases hlist : f.list = list
  · by_cases hnone : ListFlag.values flags list = [] <;> simp [hlist, hnone]
  · simp [hlist]

/-- All that is given by the values are the pieces of each list. -/
theorem foldl_add (flags : List ListFlag) :
    flags.foldl (fun g f => g.add f.list f.value) Given.nothing =
      { Given.nothing with
        keywords := ListFlag.pieces flags .keywords
        operators := ListFlag.pieces flags .operators } := by
  induction flags using List.reverseRecOn with
  | nil => rfl
  | append_singleton flags f ih =>
    rw [List.foldl_append, List.foldl_cons, List.foldl_nil, ih, pieces_concat, pieces_concat]
    obtain ⟨list, value, attached⟩ := f
    cases list <;> rfl

/-! ## Inputs -/

/-- The arguments that name inputs, all of them after a mark that ends the options. -/
def inputArguments : List String → List String
  | [] => []
  | file :: files => "--" :: file :: files

theorem mapM_readPath {files : List String} (h : ∀ file ∈ files, file ≠ "") :
    files.mapM Given.readPath = .ok files := by
  induction files with
  | nil => rfl
  | cons file files ih =>
    have hfile : Given.readPath file = .ok file := if_neg (by simpa using h file List.mem_cons_self)
    rw [List.mapM_cons, hfile, ih fun x hx => h x (List.mem_cons_of_mem file hx)]
    rfl

/-- Inputs after the first one join it. -/
theorem feed_inputs (h : Level.takesFiles (some task) = true) (g : Given)
    (before files : List String) :
    feed task ⟨g, some (.files, before), false, true⟩ files =
      .ok ⟨g, some (.files, before ++ files), false, true⟩ := by
  induction files generalizing before with
  | nil =>
    rw [List.append_nil]
    rfl
  | cons file files ih =>
    have hstep : Reading.argument (some task) ⟨g, some (.files, before), false, true⟩ file =
        .ok ⟨g, some (.files, before ++ [file]), false, true⟩ := by
      rw [Reading.argument, if_pos rfl, Reading.input, if_pos h]
    rw [feed_cons hstep, ih, List.append_assoc]
    rfl

theorem settle_inputsOnly (r : Reading) (b : Bool) :
    ({ r with inputsOnly := b } : Reading).settle =
      r.settle.map fun r => { r with inputsOnly := b } := by
  obtain ⟨g, pending, waiting, inputsOnly⟩ := r
  cases pending with
  | none => rfl
  | some p =>
    simp only [Reading.settle]
    cases g.accept p.1 p.2 <;> rfl

/-- The inputs are given beside everything else. -/
theorem Gathers.inputs (hg : Gathers r g) {files : List String}
    (h : Level.takesFiles (some task) = true ↔ files ≠ []) (hfiles : ∀ file ∈ files, file ≠ "") :
    ∃ r' inputsOnly, feed task r (inputArguments files) = .ok r' ∧
      r'.settle = .ok ⟨{ g with files := g.files ++ files }, none, false, inputsOnly⟩ := by
  cases files with
  | nil =>
    refine ⟨r, false, rfl, ?_⟩
    rw [hg.settles, List.append_nil]
  | cons file files =>
    have htakes : Level.takesFiles (some task) = true := h.mpr (by simp)
    refine ⟨⟨g, some (.files, [file] ++ files), false, true⟩, true, ?_, ?_⟩
    · have hmark : Reading.argument (some task) r "--" = .ok { r with inputsOnly := true } := by
        rw [Reading.argument, hg.options]
        rfl
      have hfirst : Reading.argument (some task) { r with inputsOnly := true } file =
          .ok ⟨g, some (.files, [file]), false, true⟩ := by
        rw [Reading.argument, if_pos rfl, Reading.input, if_pos htakes]
        split
        next values hpending => exact absurd hpending (hg.noInputs values)
        next =>
          rw [settle_inputsOnly, hg.settles]
          rfl
      rw [inputArguments, feed_cons hmark, feed_cons hfirst, feed_inputs htakes]
    · rw [Reading.settle]
      simp only [Given.accept, List.singleton_append, mapM_readPath hfiles]
      rfl

/-! ## Whole command lines -/

/-- The lists that a command is given. -/
def overridesOf : Command → Overrides
  | .lex scan _ => scan.overrides
  | .check scan => scan.overrides
  | .vocab _ overrides => overrides
  | .init _ _ => .none

/-- With nothing before the task, what is asked for is read from the arguments after it. -/
theorem read_task {v : Variables} (hv : v.check .nothing = .ok ()) (args : List String) :
    read v (task.name :: args) =
      (readTask v task args).map fun inner => assemble v .nothing inner task := by
  have houter : closeOuter v .start = .ok .nothing := by
    show (v.check .nothing >>= fun _ => pure Given.nothing) = _
    rw [hv]
    rfl
  have hread : read v (task.name :: args) = (readTask v task args >>= fun inner =>
      closeOuter v .start >>= fun outer => pure (assemble v outer inner task)) := by
    cases task <;> rfl
  rw [hread, houter]
  cases readTask v task args <;> rfl

/-- A task is read with the lists that its arguments give. -/
theorem exists_read (h : task ≠ .init) {flags : List ListFlag} (hflags : ∀ f ∈ flags, f.IsValue)
    {files : List String} (htakes : Level.takesFiles (some task) = true ↔ files ≠ [])
    (hfiles : ∀ file ∈ files, file ≠ "") {v : Variables} (hv : v.check .nothing = .ok ()) :
    ∃ i, read v (task.name :: flags.flatMap ListFlag.arguments ++ inputArguments files) = .ok i ∧
      overridesOf i.command =
        ⟨ListFlag.pieces flags .keywords, ListFlag.pieces flags .operators⟩ := by
  obtain ⟨r₁, hr₁, hg₁⟩ := gathers_start.flags h hflags
  rw [foldl_add] at hg₁
  obtain ⟨r₂, inputsOnly, hr₂, hsettle⟩ := hg₁.inputs htakes hfiles
  have hfeed : feed task .start (flags.flatMap ListFlag.arguments ++ inputArguments files) =
      .ok r₂ := by rw [feed_append hr₁, hr₂]
  have htask : readTask v task (flags.flatMap ListFlag.arguments ++ inputArguments files) =
      .ok { Given.nothing with
        keywords := ListFlag.pieces flags .keywords
        operators := ListFlag.pieces flags .operators
        files := files } := by
    have hsome : (Level.takesFiles (some task) && files.isEmpty) = false := by
      cases hempty : files.isEmpty with
      | false => exact Bool.and_false _
      | true =>
        have hno : Level.takesFiles (some task) ≠ true :=
          fun htrue => htakes.mp htrue (List.isEmpty_iff.mp hempty)
        rw [Bool.and_true, Bool.eq_false_iff]
        exact hno
    show (feed task .start _ >>= fun r => r.settle >>= fun r => v.check r.given >>= fun _ =>
      if Level.takesFiles (some task) && r.given.files.isEmpty then .error .missingInputs
      else pure r.given) = _
    rw [hfeed]
    show (r₂.settle >>= _) = _
    rw [hsettle]
    -- The variables are examined beside flags and a settings file, and none is given here.
    show (v.check .nothing >>= fun _ =>
      if Level.takesFiles (some task) && files.isEmpty then .error .missingInputs else pure _) = _
    rw [hv, hsome]
    rfl
  rw [List.cons_append, read_task hv, htask]
  refine ⟨_, rfl, ?_⟩
  cases task with
  | lex | check | vocab => rfl
  | init => exact absurd rfl h

/-- The entries of a valid vocabulary can be written down. -/
theorem isEntry_of_validate {u : Vocabulary} (hu : u.validate = .ok ()) {list : WordList}
    {x : String} (hx : x ∈ u.entries list) : IsEntry x := by
  obtain ⟨hkeywords, hoperators⟩ := Vocabulary.validate_eq_ok_iff_accepts.mp hu
  cases list with
  | keywords =>
    obtain ⟨hne, hallows⟩ := hkeywords x hx
    refine ⟨hne, fun hspace => ?_⟩
    have hletter : CharClass.isLetter ' ' = true := hallows ' ' hspace
    cases hletter
  | operators =>
    obtain ⟨hne, hallows⟩ := hoperators x hx
    refine ⟨hne, fun hspace => ?_⟩
    have hblank : Text.isBlank ' ' = false := (hallows ' ' hspace).1
    cases hblank

/-- Every list can be given on the command line. Let the entries of two lists be written down in
    the values of any arguments, with spaces at will. The pieces between single spaces, those of
    all values of a list in order, make exactly these lists; a list without a value is that of the
    vocabulary underneath. Every task that takes lists is read with these pieces. And the lists of
    a valid vocabulary have such entries: one value is enough for each, with one space between two
    entries. -/
theorem every_vocabulary_can_be_given (base : Vocabulary) {flags : List ListFlag}
    {lists : WordList → List String} (hlists : ∀ list, ∀ x ∈ lists list, x ≠ "" ∧ ' ' ∉ x.toList)
    (hspread : ∀ list, Spreads (ListFlag.values flags list) (lists list)) :
    let o : Overrides := ⟨ListFlag.pieces flags .keywords, ListFlag.pieces flags .operators⟩
    (∀ list, (o.apply base).entries list =
      if ListFlag.values flags list = [] then base.entries list else lists list) ∧
    (∀ (task : Task) (files : List String) (v : Variables), task ≠ .init →
      (∀ f ∈ flags, f.IsValue) → (Level.takesFiles (some task) = true ↔ files ≠ []) →
      (∀ file ∈ files, file ≠ "") → v.check .nothing = .ok () →
      ∃ i, read v (task.name :: flags.flatMap ListFlag.arguments ++ inputArguments files) = .ok i ∧
        overridesOf i.command = o) ∧
    ∀ u : Vocabulary, u.validate = .ok () → ∀ list,
      (∀ x ∈ u.entries list, x ≠ "" ∧ ' ' ∉ x.toList) ∧
        Spreads [" ".intercalate (u.entries list)] (u.entries list) := by
  intro o
  refine ⟨fun list => ?_, ?_, ?_⟩
  · have hgiven : o.given list = ListFlag.pieces flags list := by cases list <;> rfl
    rw [Overrides.entries_apply, hgiven, ListFlag.pieces]
    split_ifs with hnone
    · rfl
    · exact (hspread list).entries_eq (hlists list)
  · intro task files v htask hflags htakes hfiles hv
    exact exists_read htask hflags htakes hfiles hv
  · intro u hu list
    refine ⟨fun x hx => isEntry_of_validate hu hx, [u.entries list], ?_, by simp⟩
    exact .cons (writes_intercalate _) .nil

/-- Keywords in two values with spaces around and between them, and an empty value that gives a list
    without operators. -/
theorem keywords_given_in_two_values :
    let flags : List ListFlag :=
      [⟨.keywords, " when  then", false⟩, ⟨.operators, "", true⟩, ⟨.keywords, "else ", true⟩]
    let o : Overrides := ⟨ListFlag.pieces flags .keywords, ListFlag.pieces flags .operators⟩
    o.apply .builtIn = ⟨["when", "then", "else"], []⟩ ∧
      ∃ i, read .unset ["vocab", "--keywords", " when  then", "--operators=", "--keywords=else "] =
        .ok i ∧ overridesOf i.command = o := by
  intro flags o
  have hspread : ∀ list, Spreads (ListFlag.values flags list)
      (Vocabulary.entries ⟨["when", "then", "else"], []⟩ list) := by
    intro list
    cases list with
    | keywords =>
      have hfirst : Writes " when  then".toList ["when", "then"] :=
        .space (.entry "when" (.space (.last "then")))
      have hsecond : Writes "else ".toList ["else"] := .entry "else" .nothing
      exact ⟨[["when", "then"], ["else"]], .cons hfirst (.cons hsecond .nil), rfl⟩
    | operators => exact ⟨[[]], .cons .nothing .nil, rfl⟩
  have hvalid : Vocabulary.validate ⟨["when", "then", "else"], []⟩ = .ok () := rfl
  obtain ⟨happly, hread, -⟩ := every_vocabulary_can_be_given .builtIn
    (fun list x hx => isEntry_of_validate hvalid hx) hspread
  refine ⟨?_, hread .vocab [] .unset nofun ?_ (by decide) (by simp) rfl⟩
  · have hkeywords := happly .keywords
    have hoperators := happly .operators
    exact congrArg₂ Vocabulary.mk hkeywords hoperators
  · simp only [flags, List.forall_mem_cons]
    exact ⟨nofun, nofun, nofun, fun f hf => absurd hf List.not_mem_nil⟩

end Lexis.CommandLine
