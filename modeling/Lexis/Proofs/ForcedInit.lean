import Lexis.Proofs.CommandLine.Lists
import Lexis.Proofs.InitTarget

/-!
  Lexis.Proofs.ForcedInit

  Replacing a settings file by force. The settings of a run are loaded before its task begins, and
  the working directory is where they are looked for first, so the file that is to be replaced is
  read first. If it does not hold settings the run ends there (`Invocation.perform_of_unloaded`);
  if it does, every step until the built-in settings are written goes through
  (`Command.run_runInit_here`).
-/

namespace Lexis

/-! ## A file in the working directory -/

namespace FileTree

/-- A file with a name of its own stands in the working directory. -/
structure HasHere (t : FileTree) (name : String) (bytes : ByteArray) : Prop where
  here : t.at? t.here = some .directory
  file : t.at? (t.here ++ [name]) = some (.file bytes)
  noDots : isDots name = false
  short : Path.isLongName name = false

variable {t : FileTree} {path name : String} {bytes : ByteArray}

/-- A path from the working directory, of one name with or without a dot before it. -/
structure IsHere (path name : String) : Prop where
  accepted : accept path = .ok ()
  relative : Path.isAbsolute path = false
  pieces : Path.pieces path = [name] ∨ Path.pieces path = [".", name]

theorem IsHere.origin (hpath : IsHere path name) (t : FileTree) : t.origin path = t.here := by
  rw [FileTree.origin, hpath.relative]
  rfl

theorem walk_dot (h : t.at? t.here = some .directory) (rest : List String) :
    t.walk t.here ("." :: rest) = t.walk t.here rest := by
  rw [walk, h]
  rfl

theorem HasHere.locate (h : t.HasHere name bytes) (hpath : IsHere path name) :
    t.locate path = .ok (t.here ++ [name]) := by
  have hname : t.walk t.here [name] = .ok (t.here ++ [name]) := by
    have hnext : t.next t.here name = .ok (t.here ++ [name]) :=
      next_eq_ok_iff.mpr ⟨h.here, .inr (.inr ⟨h.noDots, h.short, by rw [h.file]; rfl, rfl⟩)⟩
    rw [walk_eq_foldlM, List.foldlM_cons, hnext]
    rfl
  rw [FileTree.locate, hpath.accepted, hpath.origin]
  rcases hpath.pieces with hpieces | hpieces
  · rw [hpieces]
    exact hname
  · rw [hpieces]
    exact (walk_dot h.here [name]).trans hname

/-- Other bytes can be put in the place of the file. -/
theorem HasHere.put (h : t.HasHere name bytes) (bytes' : ByteArray) :
    (t.put (t.here ++ [name]) (.file bytes')).HasHere name bytes' where
  here := by
    have hne : t.here ≠ t.here ++ [name] := by simp
    rw [put_here, at?_put t (by simp), if_neg hne, h.here]
  file := by rw [put_here, at?_put t (by simp), if_pos rfl]
  noDots := h.noDots
  short := h.short

/-- The file is written in its place. -/
theorem HasHere.writeText (h : t.HasHere name bytes) (hpath : IsHere path name)
    (hslash : endsWithSlash path = false) (text : String) :
    t.writeText path text = .ok (t.put (t.here ++ [name]) (.file text.toUTF8)) := by
  refine writeText_eq_ok_iff.mpr ⟨t.here, name, ?_, rfl⟩
  refine ⟨hpath.accepted, ?_, h.here, ?_, hslash, h.noDots, h.short, by simp [h.file]⟩
  · rw [hpath.origin]
    rcases hpath.pieces with hpieces | hpieces
    · rw [hpieces]
      rfl
    · rw [hpieces]
      exact walk_dot h.here []
  · rcases hpath.pieces with hpieces | hpieces
    · rw [hpieces]
      rfl
    · rw [hpieces]
      rfl

/-- The working directory is found under a dot, so it is not made. -/
theorem find?_dot (h : t.at? t.here = some .directory) : t.find? "." = some .directory := by
  have hpieces : Path.pieces "." = ["."] := by decide
  have hlocate : t.locate "." = .ok t.here := by
    rw [FileTree.locate, show accept "." = .ok () by decide, hpieces]
    exact walk_dot h []
  rw [find?, hlocate]
  exact h

theorem makeDirectories_dot (h : t.at? t.here = some .directory) :
    t.makeDirectories "." = (t, .ok ()) := by
  have htarget : t.target "." = .ok (t.here, ".") := by
    have hpieces : Path.pieces (trimSlashes ".") = ["."] := by decide
    refine target_eq_ok_iff.mpr ⟨by decide, ?_, h, ?_⟩
    · rw [hpieces]
      rfl
    · rw [hpieces]
      rfl
  have hmake : t.makeDirectory "." = .error .alreadyExists := by
    rw [makeDirectory, htarget]
    rfl
  rw [makeDirectories, makeAll, if_neg (by decide), hmake]
  simp only [isDirectory, find?_dot h, if_true]

end FileTree

/-! ## Reading it -/

namespace Settings

variable {t : FileTree} {path : String} {place : List String} {bytes : ByteArray} {c : Settings}

/-- The bytes are a text, the text is a document of settings, and the settings are valid. -/
def HeldBy (c : Settings) (bytes : ByteArray) : Prop :=
  ∃ text, FileTree.decode bytes = .ok text ∧ ofToml? text = some c ∧ c.validate = .ok ()

/-- Loading a file depends on its bytes alone. -/
theorem ofFile_eq_ok_iff (hlocate : t.locate path = .ok place)
    (hfile : t.at? place = some (.file bytes)) : ofFile t path = .ok c ↔ c.HeldBy bytes := by
  have hexists : t.pathExists path = true := FileTree.pathExists_of_locate hlocate hfile
  have hread : t.readText path = FileTree.decode bytes := FileTree.readText_of_locate hlocate hfile
  rw [ofFile, if_neg (by simp [hexists]), hread, HeldBy]
  cases FileTree.decode bytes with
  | error e => simp
  | ok text =>
    simp only [Except.ok.injEq, exists_eq_left']
    cases ofToml? text with
    | none => simp
    | some d =>
      simp only [Option.some.injEq]
      cases hd : d.validate with
      | error e =>
        constructor
        · intro h
          cases h
        · rintro ⟨rfl, hc⟩
          rw [hd] at hc
          cases hc
      | ok u =>
        constructor
        · intro h
          obtain rfl := Except.ok.inj h
          exact ⟨rfl, hd⟩
        · rintro ⟨rfl, -⟩
          rfl

/-- The document of the built-in settings holds them. -/
theorem heldBy_builtIn : builtIn.HeldBy (String.ofList builtIn.tomlChars).toUTF8 := by
  have hjobs : ∀ n ∈ builtIn.lex.jobs, n ≤ maxWritableJobs := by rintro n ⟨⟩
  exact ⟨_, FileTree.decode_toUTF8 _, ofToml?_tomlChars hjobs, by decide +kernel⟩

theorem isHere_fileName : FileTree.IsHere fileName fileName :=
  ⟨by decide, by decide, .inl (by decide)⟩

theorem ofFile_here_eq_ok_iff (h : t.HasHere fileName bytes) :
    ofFile t fileName = .ok c ↔ c.HeldBy bytes :=
  ofFile_eq_ok_iff (h.locate isHere_fileName) h.file

/-- The settings file of the working directory comes before all others. -/
theorem run_load_here (h : t.HasHere fileName bytes) (s : Surroundings) (written : Array Output) :
    (load s none).run ⟨t, written⟩ = (loadFrom fileName).run ⟨t, written⟩ := by
  have hfound : discover? s t = some fileName := by
    rw [discover?, candidates, List.append_assoc]
    have hlocate : t.locate fileName = .ok (t.here ++ [fileName]) := h.locate isHere_fileName
    exact List.find?_cons_of_pos (FileTree.pathExists_of_locate hlocate h.file)
  rw [load, Session.run_bind_ok (Session.run_tree _), hfound]
  rfl

end Settings

/-! ## The task -/

/-- The file system with the built-in settings in the settings file of the working directory. -/
def Settings.resetHere (t : FileTree) : FileTree :=
  t.put (t.here ++ [fileName]) (.file (String.ofList builtIn.tomlChars).toUTF8)

namespace Command

variable {t : FileTree} {bytes : ByteArray} {w : World}

/-- The working directory is a target that is ready. -/
theorem run_prepareTarget_dot (h : w.tree.at? w.tree.here = some .directory) (verbose : Bool) :
    (prepareTarget verbose ".").run w = .ok () w := by
  have hfound : w.tree.find? "." = some .directory := FileTree.find?_dot h
  rw [prepareTarget, Session.run_bind_ok (Session.run_tree w)]
  simp only [FileTree.pathExists, FileTree.isDirectory, hfound]
  rfl

/-- The built-in settings can be written down, so they take the place of the file. -/
theorem toFile_builtIn_here (h : t.HasHere Settings.fileName bytes) :
    Settings.toFile t "./muncht.toml" Settings.builtIn = (Settings.resetHere t, .ok ()) := by
  have hparent : Path.parent? "./muncht.toml" = some "." := by decide
  have htext : Settings.builtIn.toToml = .ok (String.ofList Settings.builtIn.tomlChars) := by
    rw [Settings.toToml, if_neg (by decide)]
  have hpath : FileTree.IsHere "./muncht.toml" Settings.fileName :=
    ⟨by decide, by decide, .inr (by decide)⟩
  rw [Settings.toFile, hparent, Option.elim_some, FileTree.makeDirectories_dot h.here]
  simp only [htext, h.writeText hpath (by decide)]
  rfl

/-- Writing the built-in settings by force in the place of a file in the working directory goes
    through. -/
theorem run_runInit_here (h : w.tree.HasHere Settings.fileName bytes) (verbose : Bool) :
    (runInit verbose none true).run w = .ok "./muncht.toml"
      (World.wrote { w with tree := Settings.resetHere w.tree }
        [.log false (.logged none (.wroteSettings "./muncht.toml")),
          .out "Created ./muncht.toml\n"]) := by
  have hfile : Path.join "." Settings.fileName = "./muncht.toml" := by decide
  have hsaved : (Settings.builtIn.save "./muncht.toml").run w =
      .ok () { w with tree := Settings.resetHere w.tree } := by
    rw [Settings.run_save, toFile_builtIn_here h, Session.run_lift_ok]
  unfold runInit
  simp only [Option.getD_none, hfile, Bool.not_true, Bool.and_false, Bool.false_eq_true, if_false]
  rw [Session.run_bind_ok (run_prepareTarget_dot h.here verbose),
    Session.run_bind_ok (Session.run_tree w), Session.run_bind_ok hsaved,
    Session.run_bind_ok (Session.run_report _ _), Session.run_bind_ok (Session.run_say _ _),
    World.wrote_wrote]
  rfl

end Command

namespace CommandLine

/-- What the arguments ask for when the environment names no settings file. -/
theorem read_forced_init {v : Variables} (hv : v.check .nothing = .ok ()) (hconfig : v.config = none) :
    ∃ i, read v ["init", "--force"] = .ok i ∧ i.config = none ∧ i.command = .init none true := by
  have htask : readTask v .init ["--force"] = .ok { Given.nothing with flags := [.force] } := by
    -- The variables are examined beside the verbose and colour flags, and neither is given here.
    show (v.check .nothing >>= fun _ => pure { Given.nothing with flags := [.force] }) = _
    rw [hv]
    rfl
  have hread := @read_task .init v hv ["--force"]
  rw [htask] at hread
  exact ⟨_, hread, hconfig, rfl⟩

end CommandLine

/-! ## Whole runs -/

namespace Invocation

variable {s : Surroundings} {i : Invocation} {t : FileTree} {f : Failure} {w : World}

/-- Nothing is done before the settings are loaded. -/
theorem perform_of_unloaded (h : (Settings.load s i.config).run ⟨t, #[]⟩ = .error f w) :
    i.perform s t = ⟨1, w.written.toList ++ [.err (f.line ++ "\n")], w.tree⟩ := by
  have hrun : (i.run s).run ⟨t, #[]⟩ = .error f w := Session.run_bind_error h
  rw [perform, hrun]

/-- Once some are loaded, the built-in settings take the place of the file. -/
theorem perform_forced_init {c : Settings} {bytes : ByteArray}
    (hfile : t.HasHere Settings.fileName bytes) (hi : i.command = .init none true)
    (hload : (Settings.load s i.config).run ⟨t, #[]⟩ = .ok c w) (htree : w.tree = t) :
    (i.perform s t).status = 0 ∧ (i.perform s t).tree = Settings.resetHere t := by
  obtain ⟨w₁, hstart, hlogged⟩ := Session.exists_run_report (.started .init) w
  have hsame : w₁.tree = t := hlogged.tree.trans htree
  have hstands : w₁.tree.HasHere Settings.fileName bytes := hsame ▸ hfile
  obtain ⟨w₂, hwrite, hreset⟩ : ∃ w₂, (Command.runInit (i.verbose || c.verbose) none true).run w₁ =
      .ok "./muncht.toml" w₂ ∧ w₂.tree = Settings.resetHere w₁.tree :=
    ⟨_, Command.run_runInit_here hstands _, rfl⟩
  have hrun : (i.run s).run ⟨t, #[]⟩ = .ok () w₂ := by
    rw [Invocation.run, Session.run_bind_ok hload, hi, Command.run, Command.task,
      Session.run_bind_ok hstart]
    exact Session.run_discard_ok hwrite
  rw [perform, hrun]
  exact ⟨rfl, hsame ▸ hreset⟩

end Invocation

/-- Writing the built-in settings by force, with no settings file named by an option or in the
    environment, replaces a settings file in the working directory that holds any settings: it is
    loaded as the built-in settings then, and nothing else is changed. A file that holds none, as it
    is no text, no document of settings, or one of settings that are not valid, is left in its
    place: the run ends with the failure to load it, before its task begins. -/
theorem forced_init_needs_settings_that_load {s : Surroundings} {t : FileTree}
    {v : CommandLine.Variables} {bytes : ByteArray} (hv : v.check .nothing = .ok ())
    (hconfig : v.config = none) (hhere : t.at? t.here = some .directory)
    (hfile : t.at? (t.here ++ [Settings.fileName]) = some (.file bytes)) :
    ∃ i, CommandLine.read v ["init", "--force"] = .ok i ∧
      ((∃ c : Settings, c.HeldBy bytes) →
        (i.perform s t).status = 0 ∧
        Settings.ofFile (i.perform s t).tree Settings.fileName = .ok Settings.builtIn ∧
        ∀ q, q ≠ t.here ++ [Settings.fileName] → (i.perform s t).tree.at? q = t.at? q) ∧
      ((¬∃ c : Settings, c.HeldBy bytes) →
        ∃ f, Settings.ofFile t Settings.fileName = .error f ∧
          i.perform s t = ⟨1, [.err (f.line ++ "\n")], t⟩) := by
  have hstands : t.HasHere Settings.fileName bytes := ⟨hhere, hfile, by decide, by decide⟩
  obtain ⟨i, hread, hnone, hcommand⟩ := CommandLine.read_forced_init hv hconfig
  have hload : (Settings.load s i.config).run ⟨t, #[]⟩ = _ :=
    hnone ▸ (Settings.run_load_here hstands s #[]).trans (Settings.run_loadFrom _ _)
  refine ⟨i, hread, ?_, ?_⟩
  · rintro ⟨c, hc⟩
    rw [(Settings.ofFile_here_eq_ok_iff hstands).mpr hc] at hload
    obtain ⟨hstatus, htree⟩ := Invocation.perform_forced_init hstands hcommand hload rfl
    rw [htree]
    refine ⟨hstatus, ?_, fun q hq => ?_⟩
    · exact (Settings.ofFile_here_eq_ok_iff (hstands.put _)).mpr Settings.heldBy_builtIn
    · rw [Settings.resetHere, FileTree.at?_put t (by simp), if_neg hq]
  · intro hnot
    cases hf : Settings.ofFile t Settings.fileName with
    | ok c => exact absurd ⟨c, (Settings.ofFile_here_eq_ok_iff hstands).mp hf⟩ hnot
    | error f =>
      simp only [hf] at hload
      exact ⟨f, rfl, Invocation.perform_of_unloaded hload⟩

/-- A file that makes runs verbose is replaced. -/
theorem forced_init_replaces_verbose_settings :
    let s : Surroundings := ⟨none, none, 1, .directory⟩
    let t : FileTree := ⟨[(["work"], .directory), (["work", "muncht.toml"],
      .file "verbose = true\n".toUTF8)], ["work"]⟩
    CommandLine.Variables.unset.check .nothing = .ok () ∧
      t.at? t.here = some .directory ∧
      t.at? (t.here ++ [Settings.fileName]) = some (.file "verbose = true\n".toUTF8) ∧
      ∃ i, CommandLine.read .unset ["init", "--force"] = .ok i ∧ (i.perform s t).status = 0 ∧
        Settings.ofFile (i.perform s t).tree Settings.fileName = .ok Settings.builtIn := by
  intro s t
  have hheld : Settings.HeldBy { Settings.builtIn with verbose := true }
      "verbose = true\n".toUTF8 :=
    ⟨_, FileTree.decode_toUTF8 _, by decide +kernel, by decide +kernel⟩
  have hv : CommandLine.Variables.unset.check .nothing = .ok () := rfl
  have hhere : t.at? t.here = some .directory := rfl
  have hfile : t.at? (t.here ++ [Settings.fileName]) = some (.file "verbose = true\n".toUTF8) := rfl
  obtain ⟨i, hread, hloads, -⟩ := forced_init_needs_settings_that_load (s := s) hv rfl hhere hfile
  obtain ⟨hstatus, hloaded, -⟩ := hloads ⟨_, hheld⟩
  exact ⟨hv, hhere, hfile, i, hread, hstatus, hloaded⟩

/-- A file that asks for zero workers is left as it is, and still does not load. -/
theorem forced_init_keeps_settings_with_zero_jobs :
    let s : Surroundings := ⟨none, none, 1, .directory⟩
    let t : FileTree := ⟨[(["work"], .directory), (["work", "muncht.toml"],
      .file "[lex]\njobs = 0\n".toUTF8)], ["work"]⟩
    t.at? t.here = some .directory ∧
      t.at? (t.here ++ [Settings.fileName]) = some (.file "[lex]\njobs = 0\n".toUTF8) ∧
      ∃ i, CommandLine.read .unset ["init", "--force"] = .ok i ∧ (i.perform s t).status = 1 ∧
        (i.perform s t).tree = t ∧
        Settings.ofFile (i.perform s t).tree Settings.fileName =
          .error (.settings .zeroJobs) := by
  intro s t
  have htree : ∀ i, CommandLine.read .unset ["init", "--force"] = .ok i →
      (i.perform s t).status = 1 ∧ (i.perform s t).tree = t := by
    rintro i ⟨⟩
    exact ⟨by decide +kernel, by decide +kernel⟩
  have hzero : Settings.ofFile t Settings.fileName = .error (.settings .zeroJobs) := by
    decide +kernel
  obtain ⟨hstatus, hsame⟩ := htree _ rfl
  exact ⟨rfl, rfl, _, rfl, hstatus, hsame, hsame.symm ▸ hzero⟩

end Lexis
