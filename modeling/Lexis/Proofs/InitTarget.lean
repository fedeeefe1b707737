import Lexis.Command.Run
import Lexis.Proofs.Directories
import Lexis.Proofs.SavedSettings
import Lexis.Proofs.Session

/-!
  Lexis.Proofs.InitTarget

  Writing the built-in settings touches nothing but the settings file and the directories above it.
  Every step until the file is written only makes directories on the way to it, so a run that fails
  leaves all files as they were (`grows_prepareTarget`, `toFile_cases`), and what stood at the path
  of the file stands there when it is looked for.
-/

namespace Lexis

/-! ## Saving settings -/

namespace Settings

/-- The file is written last, after the directories above it were made. -/
theorem toFile_cases (t : FileTree) (path : String) (s : Settings) :
    (∃ f t', toFile t path s = (t', .error f) ∧ t.Grows path t') ∨
      ∃ t₁ t', toFile t path s = (t', .ok ()) ∧ t.Grows path t₁ ∧
        t₁.writeText path (String.ofList s.tomlChars) = .ok t' := by
  have habove : t.Grows path ((Path.parent? path).elim (t, .ok ()) t.makeDirectories).1 := by
    cases hparent : Path.parent? path with
    | none => exact .refl path t
    | some above =>
      exact FileTree.grows_makeDirectories t (FileTree.approaches_of_parent? hparent)
  unfold toFile
  -- Whatever fails from here on, the state is the one in which these directories were made.
  generalize (Path.parent? path).elim (t, .ok ()) t.makeDirectories = made at habove
  obtain ⟨t₁, e | u⟩ := made
  · exact Or.inl ⟨_, t₁, rfl, habove⟩
  · unfold toToml
    split_ifs with hjobs
    · exact Or.inl ⟨_, t₁, rfl, habove⟩
    · cases hwrite : t₁.writeText path (String.ofList s.tomlChars) with
      | error e =>
        refine Or.inl ⟨.os e, t₁, ?_, habove⟩
        simp only [hwrite]
      | ok t' =>
        refine Or.inr ⟨t₁, t', ?_, habove, hwrite⟩
        simp only [hwrite]

theorem run_save (s : Settings) (path : String) (w : World) :
    (s.save path).run w = (Session.lift (toFile w.tree path s).2).run
      { w with tree := (toFile w.tree path s).1 } := rfl

end Settings

/-! ## The target -/

namespace Command

/-- The settings file in a target directory; without one, in the working directory. -/
def initFile (path : Option String) : String := Path.join (path.getD ".") Settings.fileName

/-- Whether or not the target is ready then, only directories on the way to the file were made. -/
theorem grows_prepareTarget (verbose : Bool) (target : String) (w : World) :
    w.tree.Grows (Path.join target Settings.fileName)
      (Session.world ((prepareTarget verbose target).run w)).tree := by
  have hname : '/' ∉ Settings.fileName.toList := by decide
  have hmade := FileTree.grows_makeDirectories w.tree (FileTree.approaches_join hname target)
  have hleft : ∀ w₁ : World, w.tree.Grows (Path.join target Settings.fileName)
      (Session.world ((Session.setTree (w.tree.makeDirectories target).1 >>= fun _ =>
        Session.lift ((w.tree.makeDirectories target).2.mapError .os)).run w₁)).tree := by
    intro w₁
    rw [Session.run_bind_ok (Session.run_setTree _ w₁), Session.world_run_lift]
    exact hmade
  unfold prepareTarget
  rw [Session.run_bind_ok (Session.run_tree w)]
  split_ifs
  · rw [Session.run_bind_ok (Session.run_warn _ w)]
    exact hleft _
  · exact hleft w
  · exact .refl _ _
  · exact .refl _ _

/-- A run fails after some directories were made, or it makes them and writes the file; where the
    file stood before, only by force. -/
theorem runInit_cases (verbose : Bool) (path : Option String) (force : Bool) (w : World) :
    (∃ f w', (runInit verbose path force).run w = .error f w' ∧
        w.tree.Grows (initFile path) w'.tree) ∨
      ∃ t₁ w', (runInit verbose path force).run w = .ok (initFile path) w' ∧
        w.tree.Grows (initFile path) t₁ ∧
        t₁.writeText (initFile path) (String.ofList Settings.builtIn.tomlChars) = .ok w'.tree ∧
        (w.tree.pathExists (initFile path) = true → force = true) := by
  have hready : w.tree.Grows (initFile path) _ := grows_prepareTarget verbose (path.getD ".") w
  unfold runInit
  cases hprepare : (prepareTarget verbose (path.getD ".")).run w with
  | error f w₁ =>
    rw [hprepare] at hready
    exact Or.inl ⟨f, w₁, Session.run_bind_error hprepare, hready⟩
  | ok u w₁ =>
    rw [hprepare] at hready
    rw [Session.run_bind_ok hprepare, Session.run_bind_ok (Session.run_tree w₁)]
    by_cases hexists : (w₁.tree.pathExists (initFile path) && !force) = true
    · refine Or.inl ⟨.refused (.settingsExist (initFile path)), w₁, ?_, hready⟩
      exact congrArg (EStateM.run · w₁) (if_pos hexists)
    · have hforce : w.tree.pathExists (initFile path) = true → force = true := by
        -- Nothing was removed while the target was made ready, so the file is still found.
        intro hbefore
        have hstill : w₁.tree.pathExists (initFile path) = true := hready.pathExists hbefore
        simpa [hstill] using hexists
      rcases Settings.toFile_cases w₁.tree (initFile path) Settings.builtIn with
        ⟨f, t', hsave, hgrows⟩ | ⟨t₁, t', hsave, hgrows, hwrite⟩
      · have hsaved : (Settings.builtIn.save (initFile path)).run w₁ =
            .error f { w₁ with tree := t' } := by
          rw [Settings.run_save, hsave, Session.run_lift_error]
        refine Or.inl ⟨f, { w₁ with tree := t' }, ?_, hready.trans hgrows⟩
        refine (congrArg (EStateM.run · w₁) (if_neg hexists)).trans ?_
        exact Session.run_bind_error hsaved
      · have hsaved : (Settings.builtIn.save (initFile path)).run w₁ =
            .ok () { w₁ with tree := t' } := by
          rw [Settings.run_save, hsave, Session.run_lift_ok]
        refine Or.inr ⟨t₁, World.wrote (World.wrote { w₁ with tree := t' }
            [.log false (.logged none (.wroteSettings (initFile path)))])
          [.out (s!"Created {initFile path}" ++ "\n")], ?_, hready.trans hgrows, hwrite, hforce⟩
        refine (congrArg (EStateM.run · w₁) (if_neg hexists)).trans ?_
        refine (Session.run_bind_ok hsaved).trans ?_
        refine (Session.run_bind_ok (Session.run_report _ _)).trans ?_
        exact Session.run_bind_ok (Session.run_say _ _)

end Command

/-- Writing the built-in settings into a target fails and leaves every file as it was, or it writes
    the settings file of the target, which is loaded as the built-in settings then, makes the
    directories that were missing on the way to it, and changes nothing else. Where that file, or
    anything under its name, stood before, it fails unless it is forced. -/
theorem init_touches_only_its_target (verbose : Bool) (path : Option String) (force : Bool)
    (w : World) :
    ((∃ f w', (Command.runInit verbose path force).run w = .error f w' ∧
        ∀ q bytes, w'.tree.at? q = some (.file bytes) ↔ w.tree.at? q = some (.file bytes)) ∨
      ∃ w' place, (Command.runInit verbose path force).run w = .ok (Command.initFile path) w' ∧
        w.tree.OnlyWrites (Command.initFile path) place w'.tree ∧
        Settings.ofFile w'.tree (Command.initFile path) = .ok Settings.builtIn) ∧
    (w.tree.pathExists (Command.initFile path) = true → force = false →
      ∃ f w', (Command.runInit verbose path force).run w = .error f w') := by
  have hvalid : Settings.builtIn.validate = .ok () := by decide +kernel
  have hjobs : ∀ n ∈ Settings.builtIn.lex.jobs, n ≤ Settings.maxWritableJobs := by rintro n ⟨⟩
  rcases Command.runInit_cases verbose path force w with
    ⟨f, w', hrun, hgrows⟩ | ⟨t₁, w', hrun, hgrows, hwrite, hforce⟩
  · exact ⟨Or.inl ⟨f, w', hrun, hgrows.file_iff⟩, fun _ _ => ⟨f, w', hrun⟩⟩
  · constructor
    · obtain ⟨place, honly⟩ := hgrows.onlyWrites hwrite
      exact Or.inr ⟨w', place, hrun, honly, Settings.ofFile_writeText hvalid hjobs hwrite⟩
    · intro hbefore hnot
      exact absurd (hforce hbefore) (by simp [hnot])

/-- A target two directories deep is made and filled, and left alone by a second run. -/
theorem init_of_a_missing_target :
    ∃ w₁ place,
      (Command.runInit false (some "new/deep") false).run ⟨.empty ["work"], #[]⟩ =
        .ok "new/deep/muncht.toml" w₁ ∧
      (FileTree.empty ["work"]).OnlyWrites "new/deep/muncht.toml" place w₁.tree ∧
      ∃ f w₂, (Command.runInit false (some "new/deep") false).run w₁ = .error f w₂ := by
  have hfile : Command.initFile (some "new/deep") = "new/deep/muncht.toml" := by decide
  rcases (init_touches_only_its_target false (some "new/deep") false ⟨.empty ["work"], #[]⟩).1 with
    ⟨f, w₁, hrun, -⟩ | ⟨w₁, place, hrun, honly, -⟩
  · have hok : (Session.outcome ((Command.runInit false (some "new/deep") false).run
        ⟨.empty ["work"], #[]⟩)).isOk = true := by decide +kernel
    rw [hrun] at hok
    cases hok
  · refine ⟨w₁, place, hfile ▸ hrun, hfile ▸ honly, ?_⟩
    refine (init_touches_only_its_target false (some "new/deep") false w₁).2 ?_ rfl
    obtain ⟨bytes, hbytes⟩ := honly.file
    rw [FileTree.pathExists, FileTree.find?, honly.found]
    simp only [hbytes]
    rfl

end Lexis
