import Lexis.Session

/-!
  Lexis.Proofs.Session

  Steps of a run as functions of the world. Most steps only write: `World.wrote` is the world after
  them, and a step that writes for every item of a list writes what its items write, in order
  (`run_forM`). A step that fails ends the run with what was written until then.
-/

namespace Lexis

/-! ## What has been written -/

/-- The text of an output, if it goes to standard output. -/
def Output.out? : Output → Option String
  | .out text => some text
  | _ => none

/-- The text of an output, if it goes to standard error; the log and the time that has passed do not
    count. -/
def Output.err? : Output → Option String
  | .err text => some text
  | _ => none

namespace World

/-- The world after something was written. -/
def wrote (w : World) (os : List Output) : World := { w with written := w.written ++ os.toArray }

/-- The texts on standard output, in order. -/
def outs (w : World) : List String := w.written.toList.filterMap Output.out?

/-- The texts on standard error, in order. -/
def errs (w : World) : List String := w.written.toList.filterMap Output.err?

@[simp] theorem wrote_nil (w : World) : w.wrote [] = w := by
  simp [wrote]

@[simp] theorem wrote_wrote (w : World) (os os' : List Output) :
    (w.wrote os).wrote os' = w.wrote (os ++ os') := by
  simp [wrote]

@[simp] theorem wrote_tree (w : World) (os : List Output) : (w.wrote os).tree = w.tree := rfl

@[simp] theorem outs_wrote (w : World) (os : List Output) :
    (w.wrote os).outs = w.outs ++ os.filterMap Output.out? := by
  simp [outs, wrote]

@[simp] theorem errs_wrote (w : World) (os : List Output) :
    (w.wrote os).errs = w.errs ++ os.filterMap Output.err? := by
  simp [errs, wrote]

/-- From one world to the other nothing has happened but entries of the log and the passing of
    time. -/
structure Logged (w w' : World) : Prop where
  tree : w'.tree = w.tree
  outs : w'.outs = w.outs
  errs : w'.errs = w.errs

theorem Logged.refl (w : World) : w.Logged w := ⟨rfl, rfl, rfl⟩

theorem Logged.trans {w w₁ w₂ : World} (h : w.Logged w₁) (h' : w₁.Logged w₂) : w.Logged w₂ :=
  ⟨h'.tree.trans h.tree, h'.outs.trans h.outs, h'.errs.trans h.errs⟩

theorem logged_wrote (w : World) {os : List Output}
    (h : ∀ o ∈ os, ∃ worker record, o = .log worker record) : w.Logged (w.wrote os) := by
  have hout : os.filterMap Output.out? = [] := by
    rw [List.filterMap_eq_nil_iff]
    intro o ho
    obtain ⟨worker, record, rfl⟩ := h o ho
    rfl
  have herr : os.filterMap Output.err? = [] := by
    rw [List.filterMap_eq_nil_iff]
    intro o ho
    obtain ⟨worker, record, rfl⟩ := h o ho
    rfl
  exact ⟨rfl, by rw [outs_wrote, hout, List.append_nil], by rw [errs_wrote, herr, List.append_nil]⟩

end World

namespace Session

/-- How a run ended, without the world it left. -/
def outcome {α : Type} : EStateM.Result Failure World α → Except Failure α
  | .ok a _ => .ok a
  | .error f _ => .error f

/-- The world that a run left. -/
def world {α : Type} : EStateM.Result Failure World α → World
  | .ok _ w => w
  | .error _ w => w

variable {α β : Type} {x : Session α} {f : α → Session β} {a : α} {e : Failure} {w w' : World}

/-! ## Steps in sequence -/

theorem run_bind_ok (h : x.run w = .ok a w') : (x >>= f).run w = (f a).run w' := by
  show EStateM.bind x f w = f a w'
  have h : x w = .ok a w' := h
  rw [EStateM.bind, h]

theorem run_bind_error (h : x.run w = .error e w') : (x >>= f).run w = .error e w' := by
  show EStateM.bind x f w = .error e w'
  have h : x w = .error e w' := h
  rw [EStateM.bind, h]

theorem run_discard_ok (h : x.run w = .ok a w') : (discard x).run w = .ok () w' := run_bind_ok h

theorem run_lift_ok (a : α) (w : World) : (lift (.ok a)).run w = .ok a w := rfl

theorem run_lift_error (e : Failure) (w : World) :
    (lift (.error e) : Session α).run w = .error e w := rfl

/-- A last check leaves the world alone and decides how the run ends. -/
theorem run_lift_bind_pure (c : Except Failure Unit) (a : α) (w : World) :
    outcome ((lift c >>= fun _ => pure a : Session α).run w) = c.map (fun _ => a) ∧
      world ((lift c >>= fun _ => pure a : Session α).run w) = w := by
  cases c with
  | ok u => exact ⟨rfl, rfl⟩
  | error e => exact ⟨rfl, rfl⟩

theorem world_run_lift (c : Except Failure α) (w : World) : world ((lift c).run w) = w := by
  cases c with
  | ok a => rfl
  | error e => rfl

theorem run_tree (w : World) : tree.run w = .ok w.tree w := rfl

theorem run_setTree (t : FileTree) (w : World) :
    (setTree t).run w = .ok () { w with tree := t } := rfl

/-! ## Steps that write -/

theorem run_write (o : Output) (w : World) : (write o).run w = .ok () (w.wrote [o]) := by
  have hpush : w.written.push o = w.written ++ [o].toArray := by simp
  show EStateM.Result.ok () { w with written := w.written.push o } = _
  rw [hpush]
  rfl

theorem run_say (line : String) (w : World) :
    (say line).run w = .ok () (w.wrote [.out (line ++ "\n")]) := run_write _ w

theorem run_warn (line : String) (w : World) :
    (warn line).run w = .ok () (w.wrote [.err (line ++ "\n")]) := run_write _ w

/-- A step that is taken under a condition. -/
theorem run_ite_bind {b : Prop} [Decidable b] {x : Session Unit} {k : Unit → Session α}
    {os : List Output} (h : ∀ w, x.run w = .ok () (w.wrote os)) (w : World) :
    (if b then x >>= k else k ()).run w = (k ()).run (w.wrote (if b then os else [])) := by
  by_cases hb : b
  · rw [if_pos hb, if_pos hb, run_bind_ok (h w)]
  · rw [if_neg hb, if_neg hb, World.wrote_nil]

/-- A step for every item writes what the items write, in order. -/
theorem run_forM {γ : Type} {step : γ → Session Unit} {out : γ → List Output}
    (hstep : ∀ c w, (step c).run w = .ok () (w.wrote (out c))) (cs : List γ) (w : World) :
    (cs.forM step).run w = .ok () (w.wrote (cs.flatMap out)) := by
  induction cs generalizing w with
  | nil =>
    rw [List.flatMap_nil, World.wrote_nil]
    rfl
  | cons c cs ih =>
    show (step c >>= fun _ => cs.forM step).run w = _
    rw [run_bind_ok (hstep c w), ih, World.wrote_wrote, List.flatMap_cons]

/-! ## Steps that only log -/

theorem run_noteAs (worker : Bool) (records : List Log.Record) (w : World) :
    (records.forM fun r => write (.log worker r)).run w =
      .ok () (w.wrote (records.map (.log worker))) := by
  rw [run_forM (fun r => run_write (.log worker r)), List.map_eq_flatMap]

theorem run_note (records : List Log.Record) (w : World) :
    (note records).run w = .ok () (w.wrote (records.map (.log false))) := run_noteAs false records w

theorem run_report (e : Log.Event) (w : World) :
    (report e).run w = .ok () (w.wrote [.log false (.logged none e)]) := run_note [.logged none e] w

theorem exists_run_note (records : List Log.Record) (w : World) :
    ∃ w', (note records).run w = .ok () w' ∧ w.Logged w' := by
  refine ⟨_, run_note records w, w.logged_wrote ?_⟩
  intro o ho
  obtain ⟨record, -, rfl⟩ := List.mem_map.mp ho
  exact ⟨false, record, rfl⟩

theorem exists_run_report (e : Log.Event) (w : World) :
    ∃ w', (report e).run w = .ok () w' ∧ w.Logged w' := exists_run_note [.logged none e] w

theorem exists_run_forM_noteWorker {γ : Type} (records : γ → List Log.Record) (cs : List γ)
    (w : World) :
    ∃ w', (cs.forM fun c => noteWorker (records c)).run w = .ok () w' ∧ w.Logged w' := by
  refine ⟨_, run_forM (fun c => run_noteAs true (records c)) cs w, w.logged_wrote ?_⟩
  intro o ho
  obtain ⟨c, -, hc⟩ := List.mem_flatMap.mp ho
  obtain ⟨record, -, rfl⟩ := List.mem_map.mp hc
  exact ⟨true, record, rfl⟩

end Session

end Lexis
