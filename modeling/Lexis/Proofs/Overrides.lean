import Lexis.Command.Load
import Lexis.Command.Scan
import Lexis.Proofs.Session
import Lexis.Proofs.Vocabulary.Validation

/-!
  Lexis.Proofs.Overrides

  Lists that are given for one run. Settings are validated when they are loaded
  (`Loaded.validate`), so a vocabulary made of their lists and of given ones can be at fault in a
  given list only. Of a given list the empty pieces are dropped before it is validated, so the first
  fault is the first piece with a character that may not stand there (`firstFault_apply_iff`).
-/

namespace Lexis

/-! ## Loading -/

namespace Settings

variable {c : Settings} {t : FileTree} {path : String} {w w' : World}

/-- Settings that loading returns: those found for a run, or those of a file that is named. -/
def Loaded (c : Settings) : Prop :=
  ∃ w w', (∃ surroundings, (load surroundings none).run w = .ok c w') ∨
    ∃ path, (loadFrom path).run w = .ok c w'

theorem validate_of_ofFile (h : ofFile t path = .ok c) : c.validate = .ok () := by
  unfold ofFile at h
  split_ifs at h
  cases hread : t.readText path with
  | error e =>
    rw [hread] at h
    cases h
  | ok text =>
    rw [hread] at h
    cases htoml : ofToml? text with
    | none =>
      simp only [htoml] at h
      cases h
    | some s =>
      simp only [htoml] at h
      cases hs : s.validate with
      | error e =>
        rw [hs] at h
        cases h
      | ok u =>
        rw [hs] at h
        exact Except.ok.inj h ▸ hs

/-- Loading from a file reads it and notes that in the log. -/
theorem run_loadFrom (path : String) (w : World) :
    (loadFrom path).run w = match ofFile w.tree path with
      | .ok c => .ok c (w.wrote [.log false (.logged none (.loadedSettings path))])
      | .error f => .error f w := by
  show (Session.lift (ofFile w.tree path) >>= fun s =>
    Session.report (.loadedSettings path) >>= fun _ => pure s : Session Settings).run w = _
  cases ofFile w.tree path with
  | error f => exact Session.run_bind_error (Session.run_lift_error f w)
  | ok c =>
    rw [Session.run_bind_ok (Session.run_lift_ok c w), Session.run_bind_ok (Session.run_report _ w)]
    rfl

theorem loaded_of_ofFile (h : ofFile t path = .ok c) : c.Loaded := by
  refine ⟨⟨t, #[]⟩, (World.mk t #[]).wrote [.log false (.logged none (.loadedSettings path))],
    .inr ⟨path, ?_⟩⟩
  rw [run_loadFrom]
  simp only [h]

theorem validate_of_loadFrom (h : (loadFrom path).run w = .ok c w') : c.validate = .ok () := by
  rw [run_loadFrom] at h
  cases hfile : ofFile w.tree path with
  | error f =>
    rw [hfile] at h
    cases h
  | ok s =>
    rw [hfile] at h
    obtain ⟨rfl, -⟩ := EStateM.Result.ok.inj h
    exact validate_of_ofFile hfile

/-- What is loaded is valid, the built-in settings included. -/
theorem Loaded.validate (h : c.Loaded) : c.validate = .ok () := by
  obtain ⟨w, w', ⟨surroundings, h⟩ | ⟨path, h⟩⟩ := h
  · unfold load at h
    rw [Session.run_bind_ok (Session.run_tree w), Option.none_or] at h
    cases hpath : discover? surroundings w.tree with
    | some path =>
      rw [hpath] at h
      exact validate_of_loadFrom h
    | none =>
      obtain ⟨w₁, hreport, -⟩ := Session.exists_run_report .noSettings w
      rw [hpath] at h
      simp only [Session.run_bind_ok hreport] at h
      cases h
      rfl
  · exact validate_of_loadFrom h

/-- Valid settings name no zero workers, so some number of workers comes out. -/
theorem exists_resolveJobs (h : c.validate = .ok ()) {processors : Nat} (hp : 0 < processors) :
    ∃ n, 0 < n ∧ c.resolveJobs none processors = .ok n := by
  have hjobs : c.lex.jobs ≠ some 0 := by
    intro hzero
    rw [Settings.validate, if_pos hzero] at h
    cases h
  have hpos : 0 < c.lex.jobs.getD processors := by
    cases hset : c.lex.jobs with
    | none => exact hp
    | some n =>
      rw [hset] at hjobs
      exact Nat.pos_of_ne_zero fun hn => hjobs (congrArg some hn)
  obtain ⟨n, hn⟩ := Nat.exists_eq_succ_of_ne_zero hpos.ne'
  exact ⟨n + 1, n.succ_pos, by simp only [resolveJobs, Option.none_or, hn]⟩

end Settings

/-! ## Faults of given lists -/

namespace Overrides

/-- The pieces that are given for a list. -/
def given (o : Overrides) : WordList → Option (List String)
  | .keywords => o.keywords
  | .operators => o.operators

/-- The error is about the first piece, given for a list, that is not empty and that the list may
    not hold: it shows the first character that may not stand there. -/
def FirstFault (o : Overrides) (list : WordList) (e : VocabularyError) : Prop :=
  ∃ before piece after, o.given list = some (before ++ piece :: after) ∧
    (∀ x ∈ before, x ≠ "" → list.Accepts x) ∧
    ∃ pre c post, piece.toList = pre ++ c :: post ∧ (∀ d ∈ pre, list.Allows d) ∧ ¬list.Allows c ∧
      e.Shows list piece c

variable {o : Overrides} {base : Vocabulary} {list : WordList} {e : VocabularyError}

theorem entries_apply (o : Overrides) (base : Vocabulary) (list : WordList) :
    (o.apply base).entries list = ((o.given list).map entries).getD (base.entries list) := by
  cases list <;> rfl

theorem mem_entries {x : String} {pieces : List String} :
    x ∈ entries pieces ↔ x ∈ pieces ∧ x ≠ "" := by
  simp [entries]

/-- An error about a piece shows one of its characters, which an empty entry does not have. -/
theorem FirstFault.ne_emptyEntry (h : o.FirstFault list e) (list' : WordList) (index : Nat) :
    e ≠ .emptyEntry list' index := by
  obtain ⟨before, piece, after, -, -, pre, c, post, -, -, -, hshows⟩ := h
  cases list with
  | keywords =>
    obtain rfl : e = .invalidKeyword piece (.char c) := hshows
    exact nofun
  | operators =>
    obtain ⟨cls, -, rfl⟩ := hshows
    exact nofun

/-- A list that is given in place of one without faults is the only one that can have one. -/
theorem firstFault_apply_iff (hbase : ∀ x ∈ base.entries list, list.Accepts x) :
    (o.apply base).FirstFault list e ↔ o.FirstFault list e := by
  rw [Vocabulary.FirstFault, FirstFault, entries_apply]
  cases hgiven : o.given list with
  | none =>
    constructor
    · rintro ⟨before, entry, after, hentries, -, hreports⟩
      have haccepts : list.Accepts entry := by
        refine hbase entry ?_
        rw [show base.entries list = before ++ entry :: after from hentries]
        simp
      obtain ⟨pre, c, post, hentry, -, hc, -⟩ :=
        (VocabularyError.reports_iff_of_ne haccepts.1).mp hreports
      exact absurd (haccepts.2 c (by simp [hentry])) hc
    · rintro ⟨before, piece, after, hnone, -⟩
      cases hnone
  | some pieces =>
    constructor
    · rintro ⟨before, entry, after, hentries, hbefore, hreports⟩
      -- The entries before the fault are left of a first part of the pieces, and only empty pieces
      -- stand between that part and the fault.
      obtain ⟨front, rest, rfl, rfl, hrest⟩ := List.filter_eq_append_iff.mp hentries
      obtain ⟨gap, after', rfl, hgap, hentry, -⟩ := List.filter_eq_cons_iff.mp hrest
      have hne : entry ≠ "" := by simpa using hentry
      refine ⟨front ++ gap, entry, after', by simp, ?_,
        (VocabularyError.reports_iff_of_ne hne).mp hreports⟩
      intro x hx hxne
      rcases List.mem_append.mp hx with hx | hx
      · exact hbefore x (mem_entries.mpr ⟨hx, hxne⟩)
      · exact absurd hxne (by simpa using hgap x hx)
    · rintro ⟨before, piece, after, hpieces, hbefore, pre, c, post, hpiece, hpre, hc, hshows⟩
      obtain rfl := Option.some.inj hpieces
      have hne : piece ≠ "" := by
        rintro rfl
        simp at hpiece
      refine ⟨entries before, piece, entries after, ?_, ?_, ?_⟩
      · simp [entries, hne]
      · exact fun x hx => hbefore x (mem_entries.mp hx).1 (mem_entries.mp hx).2
      · exact (VocabularyError.reports_iff_of_ne hne).mpr ⟨pre, c, post, hpiece, hpre, hc, hshows⟩

/-- The entries of a vocabulary with given lists are accepted when the pieces given are. -/
theorem accepts_apply_iff (hbase : ∀ x ∈ base.entries list, list.Accepts x) :
    (∀ x ∈ (o.apply base).entries list, list.Accepts x) ↔
      ∀ pieces, o.given list = some pieces → ∀ x ∈ pieces, x ≠ "" → list.Accepts x := by
  rw [entries_apply]
  cases o.given list with
  | none => simpa using hbase
  | some pieces => simp [mem_entries]

end Overrides

/-! ## Vocabularies of a run -/

namespace ScanRequest

variable {c : Settings} {o : Overrides}

theorem accepts_of_validate (h : c.validate = .ok ()) (list : WordList) :
    ∀ x ∈ c.vocabulary.entries list, list.Accepts x := by
  have hv : c.vocabulary.validate = .ok () := by
    unfold Settings.validate at h
    split_ifs at h
    cases hv : c.vocabulary.validate with
    | ok u => rfl
    | error e =>
      rw [hv] at h
      cases h
  obtain ⟨hkeywords, hoperators⟩ := Vocabulary.validate_eq_ok_iff_accepts.mp hv
  cases list with
  | keywords => exact hkeywords
  | operators => exact hoperators

/-- With valid settings the vocabulary of a run is refused for the first fault of a given list,
    keywords before operators. -/
theorem lexicon_eq_error_iff (h : c.validate = .ok ()) {f : Failure} :
    lexicon c o = .error f ↔ ∃ e, f = .vocabulary e ∧ (o.FirstFault .keywords e ∨
      (∀ pieces, o.keywords = some pieces → ∀ x ∈ pieces, x ≠ "" → WordList.keywords.Accepts x) ∧
        o.FirstFault .operators e) := by
  have haccepts := accepts_of_validate h
  have hfault : ∀ e, Lexicon.compile (o.apply c.vocabulary) = .error e ↔
      (o.FirstFault .keywords e ∨
        (∀ pieces, o.keywords = some pieces → ∀ x ∈ pieces, x ≠ "" → WordList.keywords.Accepts x) ∧
          o.FirstFault .operators e) := by
    intro e
    rw [Lexicon.compile_eq_error_iff, Vocabulary.validate_eq_error_iff,
      Overrides.firstFault_apply_iff (haccepts .keywords),
      Overrides.firstFault_apply_iff (haccepts .operators)]
    exact or_congr_right (and_congr_left' (Overrides.accepts_apply_iff (haccepts .keywords)))
  simp only [← hfault]
  unfold lexicon
  cases Lexicon.compile (o.apply c.vocabulary) with
  | ok lx => simp [Except.mapError]
  | error e => simp [Except.mapError, eq_comm]

/-- It is refused exactly if some piece that is given has a character that may not stand there. -/
theorem exists_lexicon_error_iff (h : c.validate = .ok ()) :
    (∃ f, lexicon c o = .error f) ↔ ∃ list pieces, o.given list = some pieces ∧
      ∃ x ∈ pieces, x ≠ "" ∧ ∃ d ∈ x.toList, ¬list.Allows d := by
  have haccepts := accepts_of_validate h
  have hvalid : (o.apply c.vocabulary).validate = .ok () ↔
      ∀ list pieces, o.given list = some pieces → ∀ x ∈ pieces, x ≠ "" → list.Accepts x := by
    rw [Vocabulary.validate_eq_ok_iff_accepts]
    constructor
    · rintro ⟨hkeywords, hoperators⟩ list
      cases list with
      | keywords => exact (Overrides.accepts_apply_iff (haccepts .keywords)).mp hkeywords
      | operators => exact (Overrides.accepts_apply_iff (haccepts .operators)).mp hoperators
    · intro hall
      exact ⟨(Overrides.accepts_apply_iff (haccepts .keywords)).mpr (hall .keywords),
        (Overrides.accepts_apply_iff (haccepts .operators)).mpr (hall .operators)⟩
  have hfails : (∃ f, lexicon c o = .error f) ↔ ¬(o.apply c.vocabulary).validate = .ok () := by
    rw [← Lexicon.exists_compile_iff]
    unfold lexicon
    cases Lexicon.compile (o.apply c.vocabulary) with
    | ok lx => simp [Except.mapError]
    | error e => simp [Except.mapError]
  rw [hfails, hvalid]
  simp only [not_forall]
  constructor
  · rintro ⟨list, pieces, hgiven, x, hx, hne, hfault⟩
    have hchar : ∃ d ∈ x.toList, ¬list.Allows d := by
      by_contra hall
      push Not at hall
      exact hfault ⟨hne, hall⟩
    exact ⟨list, pieces, hgiven, x, hx, hne, hchar⟩
  · rintro ⟨list, pieces, hgiven, x, hx, hne, d, hd, hfault⟩
    exact ⟨list, pieces, hgiven, x, hx, hne, fun haccepts => hfault (haccepts.2 d hd)⟩

end ScanRequest

/-- Settings that were loaded are valid, and only a given list can break them: the vocabulary of a
    run is refused exactly if a piece that is given, and is not empty, has a character that may not
    stand in such a list. The error is then one of the vocabulary, about the first such piece,
    keywords before operators, and never about an empty entry. And without a number of workers on
    the command line one is always found, if there is a processor. -/
theorem loaded_settings_broken_by_override {c : Settings} (hc : c.Loaded) (o : Overrides) :
    c.validate = .ok () ∧
    ((∃ f, ScanRequest.lexicon c o = .error f) ↔ ∃ list pieces, o.given list = some pieces ∧
      ∃ x ∈ pieces, x ≠ "" ∧ ∃ d ∈ x.toList, ¬list.Allows d) ∧
    (∀ f, ScanRequest.lexicon c o = .error f → ∃ e, f = .vocabulary e ∧
      (∀ list index, e ≠ .emptyEntry list index) ∧
      (o.FirstFault .keywords e ∨
        (∀ pieces, o.keywords = some pieces → ∀ x ∈ pieces, x ≠ "" → WordList.keywords.Accepts x) ∧
          o.FirstFault .operators e)) ∧
    ∀ processors, 0 < processors → ∃ n, 0 < n ∧ c.resolveJobs none processors = .ok n := by
  have hv := hc.validate
  refine ⟨hv, ScanRequest.exists_lexicon_error_iff hv, ?_,
    fun processors hp => Settings.exists_resolveJobs hv hp⟩
  intro f hf
  obtain ⟨e, rfl, hfault⟩ := (ScanRequest.lexicon_eq_error_iff hv).mp hf
  refine ⟨e, rfl, ?_, hfault⟩
  rcases hfault with hfault | ⟨-, hfault⟩
  · exact hfault.ne_emptyEntry
  · exact hfault.ne_emptyEntry

/-- A file sets the keywords and the number of workers. Operators given for a run are refused for
    the third piece, the first that is neither empty nor an operator. -/
theorem loaded_file_broken_by_operator :
    let c : Settings := ⟨false, ⟨.text, some 2⟩, ⟨["when"], Vocabulary.defaultOperators⟩⟩
    let o : Overrides := ⟨none, some ["", "+", "+a", "", "1"]⟩
    c.Loaded ∧ o.FirstFault .operators (.unreachableOperator "+a" (.char 'a') .letter) ∧
      ∃ n, 0 < n ∧ c.resolveJobs none 4 = .ok n := by
  intro c o
  have hfile : Settings.ofFile ⟨[(["work"], .directory), (["work", "muncht.toml"],
      .file "[lex]\njobs = 2\n[vocabulary]\nkeywords = ['when']\n".toUTF8)], ["work"]⟩
      "muncht.toml" = .ok c := by decide +kernel
  have hc : c.Loaded := Settings.loaded_of_ofFile hfile
  obtain ⟨-, -, herror, hjobs⟩ := loaded_settings_broken_by_override hc o
  obtain ⟨e, he, -, ⟨_, _, _, hnone, _⟩ | ⟨-, hfault⟩⟩ :=
    herror (.vocabulary (.unreachableOperator "+a" (.char 'a') .letter)) (by decide +kernel)
  · cases hnone
  · exact ⟨hc, Failure.vocabulary.inj he ▸ hfault, hjobs 4 (by decide)⟩

end Lexis
