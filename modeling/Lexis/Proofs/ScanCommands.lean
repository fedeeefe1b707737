import Lexis.Command.Scan
import Lexis.Proofs.Session
import Lexis.Proofs.TextOutput
import Lexis.Proofs.Vocabulary.Validation
import Mathlib.Data.List.Basic

/-!
  Lexis.Proofs.ScanCommands

  Printing tokens and checking inputs agree. The two tasks scan the same inputs and then tell
  success from failure in ways of their own: one looks for tokens, one for a diagnostic, one counts.
  All of these are one distinction (`diagnostic_isNone`), so the lines for clean inputs, the blocks
  of tokens, the diagnostics and the two counts divide the inputs in the same way, and both tasks
  end alike.

  A run is followed step by step (`run_scans_cases`, `run_reportFailures`, `run_runLex`,
  `run_runCheck`); the statements about what is written and how the run ends are read off these.
-/

namespace Lexis

variable {s : Surroundings} {settings : Settings} {r : ScanRequest} {scans : List FileScan}
  {w w₁ : World}

/-! ## Clean and failed scans -/

namespace FileScan

/-- A scan has tokens or a diagnostic. -/
theorem diagnostic_isNone (x : FileScan) : x.diagnostic.isNone = x.tokens?.isSome := by
  unfold diagnostic failure? tokens?
  cases x.outcome <;> rfl

/-- What is shown for the scans that have tokens is shown for the scans without a diagnostic, in
    order. -/
theorem forall₂_filterMap_tokens? {β : Type} (shown : String → List Token → β)
    (scans : List FileScan) :
    List.Forall₂ (fun x shownOf => ∃ ts, x.tokens? = some ts ∧ shownOf = shown x.name ts)
      (scans.filter (·.diagnostic.isNone))
      (scans.filterMap fun x => x.tokens?.map (shown x.name)) := by
  induction scans with
  | nil => exact .nil
  | cons x scans ih =>
    have hx := x.diagnostic_isNone
    cases ht : x.tokens? with
    | none =>
      rw [ht, Option.isSome_none] at hx
      rw [List.filterMap_cons_none (by rw [ht]; rfl), List.filter_cons_of_neg (by simp [hx])]
      exact ih
    | some ts =>
      rw [ht, Option.isSome_some] at hx
      rw [List.filterMap_cons_some (by rw [ht]; rfl),
        List.filter_cons_of_pos (p := fun y : FileScan => y.diagnostic.isNone) hx]
      exact .cons ⟨ts, ht, rfl⟩ ih

theorem name_ofPath (s : Surroundings) (lx : Lexicon) (t : FileTree) (path : String) :
    (ofPath s lx t path).name = Path.displayName path := by
  unfold ofPath
  cases h : readSource s t path with
  | error f => rfl
  | ok source =>
    show source.name = Path.displayName path
    unfold readSource at h
    simp only at h
    split at h
    · split at h
      · rw [← Except.ok.inj h]
      · cases h
    · split at h
      · cases h
      · split at h
        · cases h
        · split at h
          · rw [← Except.ok.inj h]
          · cases h

end FileScan

theorem Summary.succeeded_add_failed (scans : List FileScan) :
    (Summary.ofScans scans).succeeded + (Summary.ofScans scans).failed = scans.length := by
  have hnot : (fun x : FileScan => x.diagnostic.isSome) = fun x => !x.diagnostic.isNone := by
    funext x
    cases x.diagnostic <;> rfl
  show (scans.filter _).length + (scans.filter fun x => x.diagnostic.isSome).length = scans.length
  rw [hnot]
  exact (List.length_eq_length_filter_add _).symm

/-! ## Scanning -/

/-- Scanning is refused at once, or every input is scanned in the order of the paths; nothing but
    the log is written meanwhile. -/
theorem run_scans_cases (s : Surroundings) (settings : Settings) (r : ScanRequest) (w : World) :
    ∃ w₁, w.Logged w₁ ∧ ((∃ f, (r.scans s settings).run w = .error f w₁) ∨
      ∃ lx, ScanRequest.lexicon settings r.overrides = .ok lx ∧
        (r.scans s settings).run w = .ok (r.files.map (FileScan.ofPath s lx w.tree)) w₁) := by
  unfold ScanRequest.scans
  cases hlx : ScanRequest.lexicon settings r.overrides with
  | error f =>
    exact ⟨w, .refl w, Or.inl ⟨f, Session.run_bind_error (Session.run_lift_error f w)⟩⟩
  | ok lx =>
    obtain ⟨w₁, hnote, hlog₁⟩ := Session.exists_run_note lx.records w
    rw [Session.run_bind_ok (Session.run_lift_ok lx w), Session.run_bind_ok hnote]
    cases hjobs : settings.resolveJobs r.jobs s.processors with
    | error f =>
      exact ⟨w₁, hlog₁, Or.inl ⟨f, Session.run_bind_error (Session.run_lift_error f w₁)⟩⟩
    | ok jobs =>
      rw [Session.run_bind_ok (Session.run_lift_ok jobs w₁)]
      cases hinputs : r.checkInputs with
      | error f =>
        exact ⟨w₁, hlog₁, Or.inl ⟨f, Session.run_bind_error (Session.run_lift_error f w₁)⟩⟩
      | ok u =>
        obtain ⟨w₂, hreport, hlog₂⟩ := Session.exists_run_report
          (.scanningInputs r.files.length jobs) w₁
        have hlog : w.Logged w₂ := hlog₁.trans hlog₂
        obtain ⟨w₃, hworker, hlog₃⟩ := Session.exists_run_forM_noteWorker
          (FileScan.pathRecords s lx w₂.tree) r.files w₂
        rw [Session.run_bind_ok (Session.run_lift_ok u w₁), Session.run_bind_ok hreport,
          Session.run_bind_ok (Session.run_tree w₂), Session.run_bind_ok hworker, hlog.tree]
        exact ⟨w₃, hlog.trans hlog₃, Or.inr ⟨lx, rfl, rfl⟩⟩

/-! ## Failures -/

/-- What is written for a failed scan: the log of its excerpt, and its diagnostic. -/
def FileScan.failureOutputs (x : FileScan) : List Output :=
  x.diagnosticRecords.map (.log false) ++ (x.diagnostic.map fun text => .err (text ++ "\n")).toList

theorem run_reportFailures (scans : List FileScan) (w : World) :
    (reportFailures scans).run w = .ok () (w.wrote (scans.flatMap FileScan.failureOutputs)) := by
  refine Session.run_forM (fun x w => ?_) scans w
  rw [Session.run_bind_ok (Session.run_note _ w), FileScan.failureOutputs]
  cases hd : x.diagnostic with
  | none => simp
  | some text => simp [Session.run_warn]

/-- The diagnostics as they are printed. -/
def failureLines (scans : List FileScan) : List String :=
  (scans.filterMap FileScan.diagnostic).map (· ++ "\n")

/-- The diagnostics go to standard error, in order, and nothing else does. -/
theorem filterMap_failureOutputs (scans : List FileScan) :
    (scans.flatMap FileScan.failureOutputs).filterMap Output.out? = [] ∧
      (scans.flatMap FileScan.failureOutputs).filterMap Output.err? = failureLines scans := by
  unfold failureLines
  induction scans with
  | nil => exact ⟨rfl, rfl⟩
  | cons x scans ih =>
    have hlogs : ∀ rs : List Log.Record, (rs.map (Output.log false)).filterMap Output.out? = [] ∧
        (rs.map (Output.log false)).filterMap Output.err? = [] := by
      intro rs
      simp [List.filterMap_map, Function.comp_def, Output.out?, Output.err?]
    rw [List.flatMap_cons, List.filterMap_append, List.filterMap_append, ih.1, ih.2,
      FileScan.failureOutputs, List.filterMap_append, List.filterMap_append, (hlogs _).1,
      (hlogs _).2]
    cases hd : x.diagnostic with
    | none =>
      rw [List.filterMap_cons_none hd]
      exact ⟨rfl, rfl⟩
    | some text =>
      rw [List.filterMap_cons_some hd]
      exact ⟨rfl, rfl⟩

/-! ## The two tasks -/

theorem Summary.check_map (summary : Summary) :
    summary.check.map (fun _ => summary) =
      if summary.failed = 0 then .ok summary
      else .error (.refused (.filesFailed summary.failed)) := by
  unfold check isSuccess
  by_cases h : summary.failed = 0 <;> simp [h, Except.map]

/-- A list of inputs that a machine can hold is counted without overflow. -/
theorem Summary.total_ofScans (h : scans.length < Word.limit) :
    (Summary.ofScans scans).total = .ok scans.length := by
  rw [Summary.total, Word.add, Summary.succeeded_add_failed, if_pos h]

/-- The last line of the checking of inputs. -/
def checkedLine (scans : List FileScan) : String :=
  let summary := Summary.ofScans scans
  s!"checked {scans.length} file(s): {summary.succeeded} ok, {summary.failed} failed"

theorem Summary.line_ofScans (h : scans.length < Word.limit) :
    (Summary.ofScans scans).line = .ok (checkedLine scans) := by
  rw [Summary.line, Summary.total_ofScans h]
  rfl

/-- The lines on standard error about a completed run. -/
def completionOutputs (summary : Summary) (total : Nat) : List Output :=
  [.err s!"ℹ️ Tokenized {summary.succeeded} of {total} file(s) in ", .elapsed, .err "\n"]

theorem run_reportCompletion {summary : Summary} {total : Nat} (h : summary.total = .ok total)
    (w : World) : (Command.reportCompletion summary).run w =
      .ok () (w.wrote (completionOutputs summary total)) := by
  unfold Command.reportCompletion
  rw [h, Except.mapError, Session.run_bind_ok (Session.run_lift_ok total w),
    Session.run_bind_ok (Session.run_write _ w), Session.run_bind_ok (Session.run_write _ _),
    Session.run_write, World.wrote_wrote, World.wrote_wrote]
  rfl

/-- What a text is on standard output: a line, unless it is empty. -/
def printed (text : String) : List String := if text.isEmpty then [] else [text ++ "\n"]

/-- What the printing of tokens writes after the scans, until it reports its completion. -/
def lexOutputs (format : OutputFormat) (scans : List FileScan) : List Output :=
  (if (!(Command.render format scans).isEmpty) = true then
      [.out (Command.render format scans ++ "\n")] else []) ++
    scans.flatMap FileScan.failureOutputs

theorem filterMap_lexOutputs (format : OutputFormat) (scans : List FileScan) :
    (lexOutputs format scans).filterMap Output.out? = printed (Command.render format scans) ∧
      (lexOutputs format scans).filterMap Output.err? = failureLines scans := by
  obtain ⟨hout, herr⟩ := filterMap_failureOutputs scans
  rw [lexOutputs, printed, List.filterMap_append, List.filterMap_append, hout, herr,
    List.append_nil]
  cases (Command.render format scans).isEmpty <;> exact ⟨rfl, rfl⟩

/-- What is left of the printing of tokens after that. -/
def Command.endLex (verbose : Bool) (summary : Summary) : Session Summary := do
  if verbose then Command.reportCompletion summary
  Session.lift summary.check
  return summary

theorem run_runLex (verbose : Bool) (format : Option OutputFormat)
    (h : (r.scans s settings).run w = .ok scans w₁) :
    (Command.runLex s settings verbose r format).run w =
      (Command.endLex verbose (Summary.ofScans scans)).run
        (w₁.wrote (lexOutputs (format.getD settings.lex.format) scans)) := by
  unfold Command.runLex
  rw [Session.run_bind_ok h]
  dsimp only
  rw [Session.run_ite_bind (Session.run_say _), Session.run_bind_ok (run_reportFailures scans _),
    World.wrote_wrote, lexOutputs]
  rfl

theorem run_endLex {summary : Summary} {total : Nat} (h : summary.total = .ok total)
    (verbose : Bool) (w : World) :
    (Command.endLex verbose summary).run w =
      (Session.lift summary.check >>= fun _ => pure summary : Session Summary).run
        (w.wrote (if verbose = true then completionOutputs summary total else [])) := by
  unfold Command.endLex
  exact Session.run_ite_bind (run_reportCompletion h) w

/-- Nothing more goes to standard output, also if the inputs cannot be counted. -/
theorem outs_endLex (verbose : Bool) (summary : Summary) (w : World) :
    (Session.world ((Command.endLex verbose summary).run w)).outs = w.outs := by
  have hend := fun w => (Session.run_lift_bind_pure summary.check summary w).2
  cases htotal : summary.total with
  | ok total =>
    rw [run_endLex htotal, hend, World.outs_wrote]
    cases verbose <;> exact List.append_nil _
  | error e =>
    cases verbose with
    | false => exact congrArg World.outs (hend w)
    | true =>
      have hreport : (Command.reportCompletion summary).run w = .error (.overflow e) w := by
        unfold Command.reportCompletion
        rw [htotal]
        exact Session.run_bind_error (Session.run_lift_error _ w)
      exact congrArg (fun r => (Session.world r).outs) (Session.run_bind_error hreport)

/-- What the printing of tokens prints. -/
theorem lex_prints (verbose : Bool) (format : Option OutputFormat)
    (h : (r.scans s settings).run w = .ok scans w₁) (hlog : w.Logged w₁) :
    (Session.world ((Command.runLex s settings verbose r format).run w)).outs =
      w.outs ++ printed (Command.render (format.getD settings.lex.format) scans) := by
  rw [run_runLex verbose format h, outs_endLex, World.outs_wrote, hlog.outs,
    (filterMap_lexOutputs _ scans).1]

/-- How the printing of tokens ends, and what it has reported by then. -/
theorem lex_finishes (verbose : Bool) (format : Option OutputFormat)
    (h : (r.scans s settings).run w = .ok scans w₁) (hlog : w.Logged w₁)
    (hfit : scans.length < Word.limit) :
    let lex := (Command.runLex s settings verbose r format).run w
    Session.outcome lex = (Summary.ofScans scans).check.map (fun _ => Summary.ofScans scans) ∧
      (Session.world lex).errs = w.errs ++ (failureLines scans ++ if verbose = true then
        (completionOutputs (Summary.ofScans scans) scans.length).filterMap Output.err? else []) := by
  intro lex
  have hrun : lex = _ := run_runLex verbose format h
  rw [run_endLex (Summary.total_ofScans hfit)] at hrun
  obtain ⟨hend, hworld⟩ := Session.run_lift_bind_pure (Summary.ofScans scans).check
    (Summary.ofScans scans) ((w₁.wrote (lexOutputs (format.getD settings.lex.format) scans)).wrote
      (if verbose = true then completionOutputs (Summary.ofScans scans) scans.length else []))
  rw [← hrun] at hend hworld
  refine ⟨hend, ?_⟩
  rw [hworld, World.errs_wrote, World.errs_wrote, hlog.errs, (filterMap_lexOutputs _ scans).2,
    List.append_assoc]
  cases verbose <;> rfl

/-- What the checking of inputs writes after the scans. -/
def checkOutputs (verbose : Bool) (scans : List FileScan) : List Output :=
  (FileScan.okLines verbose scans).map (fun line => .out (line ++ "\n")) ++
    scans.flatMap FileScan.failureOutputs ++ [.out (checkedLine scans ++ "\n")]

theorem filterMap_checkOutputs (verbose : Bool) (scans : List FileScan) :
    (checkOutputs verbose scans).filterMap Output.out? =
        (FileScan.okLines verbose scans ++ [checkedLine scans]).map (· ++ "\n") ∧
      (checkOutputs verbose scans).filterMap Output.err? = failureLines scans := by
  obtain ⟨hout, herr⟩ := filterMap_failureOutputs scans
  have hlines : ∀ lines : List String,
      (lines.map fun line => Output.out (line ++ "\n")).filterMap Output.out? =
          lines.map (· ++ "\n") ∧
        (lines.map fun line => Output.out (line ++ "\n")).filterMap Output.err? = [] := by
    intro lines
    rw [List.filterMap_map, List.filterMap_map]
    exact ⟨congrFun List.filterMap_eq_map' lines, by simp [Function.comp_def, Output.err?]⟩
  rw [checkOutputs, List.filterMap_append, List.filterMap_append, List.filterMap_append,
    List.filterMap_append, hout, herr, (hlines _).1, (hlines _).2, List.map_append]
  exact ⟨by simp [Output.out?], by simp [Output.err?]⟩

theorem run_runCheck (verbose : Bool) (h : (r.scans s settings).run w = .ok scans w₁)
    (hfit : scans.length < Word.limit) :
    (Command.runCheck s settings verbose r).run w =
      (Session.lift (Summary.ofScans scans).check >>= fun _ => pure (Summary.ofScans scans)).run
        (w₁.wrote (checkOutputs verbose scans)) := by
  have hlines : ((FileScan.okLines verbose scans).forM Session.say).run w₁ = .ok ()
      (w₁.wrote ((FileScan.okLines verbose scans).map fun line => .out (line ++ "\n"))) := by
    rw [Session.run_forM Session.run_say, List.map_eq_flatMap]
  unfold Command.runCheck
  rw [Session.run_bind_ok h, Session.run_bind_ok hlines,
    Session.run_bind_ok (run_reportFailures scans _)]
  dsimp only
  rw [Summary.line_ofScans hfit, Except.mapError, Session.run_bind_ok (Session.run_lift_ok _ _),
    Session.run_bind_ok (Session.run_say _ _), World.wrote_wrote, World.wrote_wrote, checkOutputs,
    List.append_assoc]

/-- How the checking of inputs ends, and what it has printed by then. -/
theorem check_finishes (verbose : Bool) (h : (r.scans s settings).run w = .ok scans w₁)
    (hlog : w.Logged w₁) (hfit : scans.length < Word.limit) :
    let check := (Command.runCheck s settings verbose r).run w
    Session.outcome check = (Summary.ofScans scans).check.map (fun _ => Summary.ofScans scans) ∧
      (Session.world check).outs =
        w.outs ++ (FileScan.okLines verbose scans ++ [checkedLine scans]).map (· ++ "\n") ∧
      (Session.world check).errs = w.errs ++ failureLines scans := by
  intro check
  have hrun : check = _ := run_runCheck verbose h hfit
  obtain ⟨hend, hworld⟩ := Session.run_lift_bind_pure (Summary.ofScans scans).check
    (Summary.ofScans scans) (w₁.wrote (checkOutputs verbose scans))
  obtain ⟨hout, herr⟩ := filterMap_checkOutputs verbose scans
  rw [← hrun] at hend hworld
  refine ⟨hend, ?_, ?_⟩
  · rw [hworld, World.outs_wrote, hlog.outs, hout]
  · rw [hworld, World.errs_wrote, hlog.errs, herr]

/-! ## Every input is accounted for once -/

theorem run_reportFailures_lines (scans : List FileScan) (w : World) :
    ∃ w', (reportFailures scans).run w = .ok () w' ∧ w'.outs = w.outs ∧
      w'.errs = w.errs ++ failureLines scans := by
  obtain ⟨hout, herr⟩ := filterMap_failureOutputs scans
  refine ⟨_, run_reportFailures scans w, ?_, ?_⟩
  · rw [World.outs_wrote, hout, List.append_nil]
  · rw [World.errs_wrote, herr, failureLines]

/-- The scans of a request, told apart by whether they have a diagnostic. -/
structure ScanRequest.Accounts (r : ScanRequest) (scans : List FileScan) : Prop where
  /-- The scans are in the order of the paths. -/
  names : scans.map FileScan.name = r.files.map Path.displayName
  /-- Every path is counted once. -/
  total : (Summary.ofScans scans).succeeded + (Summary.ofScans scans).failed = r.files.length
  /-- There is a line for exactly the clean inputs. -/
  okLines : ∀ verbose, List.Forall₂
    (fun x line => ∃ ts, x.tokens? = some ts ∧ line = FileScan.okLine verbose x.name ts)
    (scans.filter (·.diagnostic.isNone)) (FileScan.okLines verbose scans)
  /-- There is a block of lines for exactly the clean inputs: the line of its name, when there are
      several inputs, and a line for each of its tokens. -/
  blocks : List.Forall₂
    (fun x lines => ∃ ts, x.tokens? = some ts ∧
      lines = FileScan.blockLines (decide (1 < scans.length)) x.name ts)
    (scans.filter (·.diagnostic.isNone)) (FileScan.shownLines scans)
  /-- The text that is shown consists of these blocks, with an empty line between two of them. -/
  text : FileScan.renderText scans =
    "\n\n".intercalate ((FileScan.shownLines scans).map ("\n".intercalate ·))
  /-- A diagnostic is printed for exactly the others. -/
  failures : List.Forall₂ (fun x line => ∃ text, x.diagnostic = some text ∧ line = text ++ "\n")
      (scans.filter (·.diagnostic.isSome)) (failureLines scans) ∧
    ∀ w, ∃ w', (reportFailures scans).run w = .ok () w' ∧ w'.outs = w.outs ∧
      w'.errs = w.errs ++ failureLines scans

theorem forall₂_failureLines (scans : List FileScan) :
    List.Forall₂ (fun x line => ∃ text, x.diagnostic = some text ∧ line = text ++ "\n")
      (scans.filter (·.diagnostic.isSome)) (failureLines scans) := by
  induction scans with
  | nil => exact .nil
  | cons x scans ih =>
    unfold failureLines at ih ⊢
    cases hd : x.diagnostic with
    | none =>
      rw [List.filterMap_cons_none hd, List.filter_cons_of_neg (by simp [hd])]
      exact ih
    | some text =>
      rw [List.filterMap_cons_some hd, List.filter_cons_of_pos (by simp [hd]), List.map_cons]
      exact .cons ⟨text, hd, rfl⟩ ih

theorem FileScan.tokenizes_ofPath {lx : Lexicon}
    (hlx : ScanRequest.lexicon settings r.overrides = .ok lx) (t : FileTree) (path : String) :
    (FileScan.ofPath s lx t path).Tokenizes := by
  obtain ⟨v, hv, hcompile⟩ : ∃ v : Vocabulary, v.validate = .ok () ∧ Lexicon.compile v = .ok lx := by
    unfold ScanRequest.lexicon at hlx
    cases hcompile : Lexicon.compile (r.overrides.apply settings.vocabulary) with
    | error e =>
      rw [hcompile] at hlx
      cases hlx
    | ok lx' =>
      rw [hcompile] at hlx
      cases hlx
      exact ⟨_, Lexicon.exists_compile_iff.mp ⟨_, hcompile⟩, hcompile⟩
  intro ts hts
  unfold FileScan.ofPath at hts
  cases hread : readSource s t path with
  | error f =>
    rw [hread] at hts
    cases hts
  | ok source =>
    rw [hread] at hts
    refine ⟨v, lx, source.content, hv, hcompile, ?_⟩
    simp only [FileScan.ofSource, FileScan.tokens?] at hts
    cases htokens : lx.tokenize source.content with
    | error e =>
      rw [htokens] at hts
      cases hts
    | ok us =>
      rw [htokens] at hts
      cases hts
      rfl

theorem accounts_of_ofPath {lx : Lexicon} (s : Surroundings)
    (hlx : ScanRequest.lexicon settings r.overrides = .ok lx) (t : FileTree) :
    r.Accounts (r.files.map (FileScan.ofPath s lx t)) where
  names := by
    rw [List.map_map]
    exact List.map_congr_left fun path _ => FileScan.name_ofPath s lx t path
  total := by rw [Summary.succeeded_add_failed, List.length_map]
  okLines verbose := FileScan.forall₂_filterMap_tokens? (FileScan.okLine verbose) _
  blocks := FileScan.forall₂_filterMap_tokens? (FileScan.blockLines _) _
  text := by
    refine (FileScan.renderText_eq fun x hx => ?_).1
    obtain ⟨path, -, rfl⟩ := List.mem_map.mp hx
    exact FileScan.tokenizes_ofPath hlx t path
  failures := ⟨forall₂_failureLines _, run_reportFailures_lines _⟩

/-- Printing tokens, in either format, and checking inputs end alike: with the same failure before
    anything is scanned, or else with the same summary, which is a success when no input failed.
    Every path is scanned once and in order, and told to be clean or failed once. The paths are as
    many as a list in memory can hold. -/
theorem lex_and_check_agree (s : Surroundings) (settings : Settings) (r : ScanRequest)
    (format : Option OutputFormat) (verbose verbose' : Bool) (w : World)
    (hfit : r.files.length < Word.limit) :
    let lex := (Command.runLex s settings verbose r format).run w
    let check := (Command.runCheck s settings verbose' r).run w
    Session.outcome lex = Session.outcome check ∧
      ∀ scans w₁, (r.scans s settings).run w = .ok scans w₁ →
        (∃ lx, ScanRequest.lexicon settings r.overrides = .ok lx ∧
          scans = r.files.map (FileScan.ofPath s lx w.tree)) ∧
        r.Accounts scans ∧
        Session.outcome lex =
          (if (Summary.ofScans scans).failed = 0 then .ok (Summary.ofScans scans)
            else .error (.refused (.filesFailed (Summary.ofScans scans).failed))) ∧
        (Session.world lex).outs = w.outs ++
          (match format.getD settings.lex.format with
            | .text => printed (FileScan.renderText scans)
            | .json => printed (FileScan.renderJson scans)) ∧
        (Session.world check).outs = w.outs ++
          (FileScan.okLines verbose' scans ++ [checkedLine scans]).map (· ++ "\n") ∧
        (Session.world check).errs = w.errs ++ failureLines scans ∧
        (verbose = false → (Session.world lex).errs = w.errs ++ failureLines scans) := by
  intro lex check
  obtain ⟨w₀, hlog, hcases⟩ := run_scans_cases s settings r w
  rcases hcases with ⟨f, hf⟩ | ⟨lx, hlx, hscans⟩
  · -- Both runs stop where the scanning is refused.
    have hlex : lex = .error f w₀ := Session.run_bind_error hf
    have hcheck : check = .error f w₀ := Session.run_bind_error hf
    refine ⟨by rw [hlex, hcheck], ?_⟩
    intro scans w₁ h
    rw [hf] at h
    cases h
  · have hlength : (r.files.map (FileScan.ofPath s lx w.tree)).length < Word.limit := by
      rwa [List.length_map]
    have hlexOut := lex_prints verbose format hscans hlog
    obtain ⟨hlexEnd, hlexErr⟩ := lex_finishes verbose format hscans hlog hlength
    obtain ⟨hcheckEnd, hcheckOut, hcheckErr⟩ := check_finishes verbose' hscans hlog hlength
    refine ⟨hlexEnd.trans hcheckEnd.symm, ?_⟩
    intro scans w₁ h
    obtain rfl : r.files.map (FileScan.ofPath s lx w.tree) = scans := by
      rw [hscans] at h
      cases h
      rfl
    refine ⟨⟨lx, hlx, rfl⟩, accounts_of_ofPath s hlx w.tree, ?_, ?_, hcheckOut, hcheckErr, ?_⟩
    · rw [← Summary.check_map]
      exact hlexEnd
    · rw [hlexOut]
      cases format.getD settings.lex.format <;> rfl
    · rintro rfl
      rw [if_neg (by simp), List.append_nil] at hlexErr
      exact hlexErr

/-- Standard input tokenizes and a file is missing: both tasks fail for one file. The text has the
    block of the clean input, with its name, and checking lists it and counts both. -/
theorem lex_and_check_agree_on_missing_file :
    let s : Surroundings := ⟨none, none, 1, .file "if <".toUTF8⟩
    let settings : Settings := ⟨false, ⟨.text, none⟩, ⟨["if"], ["<"]⟩⟩
    let r : ScanRequest := ⟨["-", "b"], some 2, .none⟩
    let w : World := ⟨.empty ["d"], #[]⟩
    r.files.length < Word.limit ∧
      ∃ scans w₁, (r.scans s settings).run w = .ok scans w₁ ∧ r.Accounts scans ∧
        Session.outcome ((Command.runLex s settings true r none).run w) =
          .error (.refused (.filesFailed 1)) ∧
        Session.outcome ((Command.runCheck s settings false r).run w) =
          .error (.refused (.filesFailed 1)) ∧
        (Session.world ((Command.runLex s settings true r none).run w)).outs =
          ["==> <stdin> <==\n1:1       keyword   if\n1:4       operator  <\n"] ∧
        (Session.world ((Command.runCheck s settings false r).run w)).outs =
          ["<stdin>: ok\n", "checked 2 file(s): 1 ok, 1 failed\n"] := by
  intro s settings r w
  have hfit : r.files.length < Word.limit := by decide
  obtain ⟨scans, w₁, hscans, hsummary, hlines, hblocks⟩ : ∃ scans w₁,
      (r.scans s settings).run w = .ok scans w₁ ∧ Summary.ofScans scans = ⟨1, 1⟩ ∧
        FileScan.okLines false scans ++ [checkedLine scans] =
          ["<stdin>: ok", "checked 2 file(s): 1 ok, 1 failed"] ∧
        FileScan.shownLines scans =
          [["==> <stdin> <==", "1:1       keyword   if", "1:4       operator  <"]] :=
    ⟨_, _, rfl, by decide +kernel, by decide +kernel, by decide +kernel⟩
  obtain ⟨hagree, h⟩ := lex_and_check_agree s settings r none true false w hfit
  obtain ⟨-, haccounts, hlex, hlexOut, hcheckOut, -⟩ := h scans w₁ hscans
  rw [hsummary] at hlex
  rw [hlines] at hcheckOut
  have htext : FileScan.renderText scans =
      "==> <stdin> <==\n1:1       keyword   if\n1:4       operator  <" := by
    rw [haccounts.text, hblocks]
    decide
  have hprinted : (Session.world ((Command.runLex s settings true r none).run w)).outs =
      w.outs ++ printed (FileScan.renderText scans) := hlexOut
  rw [htext] at hprinted
  exact ⟨hfit, scans, w₁, hscans, haccounts, hlex, hagree.symm.trans hlex, hprinted, hcheckOut⟩

end Lexis
