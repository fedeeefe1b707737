import Lexis.Proofs.FileTree

/-!
  Lexis.Proofs.Directories

  Making directories. What is made on the way to a path are directories, where nothing stood, that
  the path leads through; everything else stays as it was (`Grows`). One directory is such a step
  (`grows_makeDirectory`), and a chain of them is one because every path that is tried approaches
  the same path (`Approaches.parent`).
-/

namespace Lexis.FileTree

variable {t t' t'' : FileTree} {path a b : String}

/-! ## What is made -/

/-- The path leads through a place: some of its pieces, from the first on and without the last, are
    walked to it. -/
def OnTheWay (t : FileTree) (path : String) (place : List String) : Prop :=
  ∃ ps, ps <+: (Path.pieces path).dropLast ∧ t.walk (t.origin path) ps = .ok place

/-- The way to a place goes through also when more stands beside it. -/
theorem Passes.onTheWay (hp : t.Passes t') (hhere : t'.here = t.here) {q : List String}
    (h : t.OnTheWay path q) : t'.OnTheWay path q := by
  obtain ⟨ps, hps, hwalk⟩ := h
  refine ⟨ps, hps, ?_⟩
  rw [origin, hhere]
  exact hp.walk hwalk

/-- From one state to the other, nothing has changed but that directories were made that a path
    leads through. -/
structure Grows (path : String) (t t' : FileTree) : Prop where
  here : t'.here = t.here
  keeps : ∀ q e, t.at? q = some e → t'.at? q = some e
  adds : ∀ q, t.at? q = none →
    t'.at? q = none ∨ t'.at? q = some .directory ∧ t'.OnTheWay path q

theorem Grows.refl (path : String) (t : FileTree) : Grows path t t :=
  ⟨rfl, fun _ _ h => h, fun _ h => Or.inl h⟩

theorem Grows.passes (h : Grows path t t') : t.Passes t' where
  directory q hq := h.keeps q .directory hq
  stands q hq := by
    obtain ⟨e, he⟩ := Option.isSome_iff_exists.mp hq
    rw [h.keeps q e he]
    rfl

theorem Grows.origin (h : Grows path t t') (a : String) : t'.origin a = t.origin a := by
  rw [FileTree.origin, FileTree.origin, h.here]

theorem Grows.trans (h : Grows path t t') (h' : Grows path t' t'') : Grows path t t'' where
  here := h'.here.trans h.here
  keeps q e hq := h'.keeps q e (h.keeps q e hq)
  adds q hq := by
    rcases h.adds q hq with hnone | ⟨hmade, hway⟩
    · exact h'.adds q hnone
    · exact Or.inr ⟨h'.keeps q _ hmade, h'.passes.onTheWay h'.here hway⟩

/-- Files are those that were there. -/
theorem Grows.file_iff (h : Grows path t t') (q : List String) (bytes : ByteArray) :
    t'.at? q = some (.file bytes) ↔ t.at? q = some (.file bytes) := by
  refine ⟨fun hfile => ?_, h.keeps q _⟩
  cases hq : t.at? q with
  | none =>
    rcases h.adds q hq with hnone | ⟨hmade, -⟩
    · rw [hfile] at hnone
      cases hnone
    · rw [hfile] at hmade
      cases hmade
  | some e => rw [← h.keeps q e hq, hfile]

theorem Grows.pathExists (h : Grows path t t') (ha : t.pathExists a = true) :
    t'.pathExists a = true := by
  unfold FileTree.pathExists find? locate at ha ⊢
  cases haccept : accept a with
  | error e =>
    rw [haccept] at ha
    exact ha
  | ok u =>
    rw [haccept] at ha
    simp only at ha ⊢
    cases hwalk : t.walk (t.origin a) (Path.pieces a) with
    | error e =>
      rw [hwalk] at ha
      cases ha
    | ok place =>
      rw [hwalk] at ha
      rw [h.origin, h.passes.walk hwalk]
      exact h.passes.stands place ha

/-! ## Towards a path -/

/-- A path that is tried on the way to another: the empty path, the root, or, but for slashes at its
    end, some first pieces of the other without the last. -/
def Approaches (path a : String) : Prop :=
  a = "" ∨ trimSlashes a = "/" ∨
    Path.isAbsolute a = Path.isAbsolute path ∧
      Path.pieces (trimSlashes a) <+: (Path.pieces path).dropLast

theorem approaches_of_begins (habsolute : Path.isAbsolute a = Path.isAbsolute path)
    (idle : List String) (hidle : ∀ piece ∈ idle, piece = "")
    (h : Path.pieces a <+: (Path.pieces path).dropLast ++ idle) : Approaches path a := by
  by_cases hne : a = ""
  · exact Or.inl hne
  · rcases Path.trimSlashes_cases hne with ⟨hroot, -⟩ | ⟨n, hpieces, hlast⟩
    · exact Or.inr (Or.inl hroot)
    · have hbegins : Path.pieces (trimSlashes a) <+: (Path.pieces path).dropLast ++ idle :=
        (hpieces ▸ List.prefix_append _ _).trans h
      exact Or.inr (Or.inr ⟨habsolute, Path.prefix_of_prefix_append hbegins hidle hlast⟩)

theorem approaches_of_leading
    (h : Path.Leading (Path.pieces path).dropLast (Path.isAbsolute path) a) : Approaches path a :=
  approaches_of_begins h.origin [] (by simp) (by simpa using h.begins)

/-- The path above the path itself is tried first. -/
theorem approaches_of_parent? (h : Path.parent? path = some a) : Approaches path a := by
  rcases Path.leading_of_parent? h with hempty | rfl | hleading
  · exact Or.inl hempty
  · exact Or.inr (Or.inl (by decide))
  · exact approaches_of_leading hleading

/-- And so is the directory of a file. -/
theorem approaches_join {name : String} (hname : '/' ∉ name.toList) (directory : String) :
    Approaches (Path.join directory name) directory := by
  by_cases hne : directory = ""
  · exact Or.inl hne
  · have habsolute := (Path.isAbsolute_join hne hname).symm
    rcases Path.dropLast_pieces_join hne hname with hpieces | hpieces
    · exact approaches_of_begins habsolute [] (by simp) (by simp [hpieces])
    · exact approaches_of_begins habsolute [""] (by simp) (by simp [hpieces])

/-- The path above one that is tried is tried next. -/
theorem Approaches.parent (ha : Approaches path a) (h : Path.parent? a = some b) :
    Approaches path b := by
  have hne : a ≠ "" := by
    rintro rfl
    cases (h : none = some b)
  rcases Path.leading_of_parent? h with hempty | rfl | hleading
  · exact Or.inl hempty
  · exact Or.inr (Or.inl (by decide))
  · have hbegins : Path.pieces b <+: Path.pieces a :=
      hleading.begins.trans ( List.dropLast_prefix _)
    rcases Path.trimSlashes_cases hne with ⟨-, hslashes⟩ | ⟨n, hpieces, hlast⟩
    · -- Nothing but slashes has no name to lose.
      obtain ⟨piece, hpiece⟩ := exists_last_piece b
      have hmem : piece ∈ Path.pieces a := hbegins.subset (List.mem_of_getLast? hpiece)
      exact absurd (hslashes piece hmem) (hleading.last piece hpiece)
    · have hnames : Path.pieces b <+: Path.pieces (trimSlashes a) :=
        Path.prefix_of_prefix_append (hpieces ▸ hbegins)
          (fun _ hz => List.eq_of_mem_replicate hz) hleading.last
      rcases ha with hempty | hroot | ⟨habsolute, ha⟩
      · exact absurd hempty hne
      · exact absurd rfl (hlast "" (by rw [hroot]; decide))
      · exact approaches_of_leading
          ⟨hnames.trans ha, hleading.last, hleading.origin.trans habsolute⟩

/-! ## One directory -/

/-- A directory is made in a directory, under a name of its own, where nothing stood. -/
theorem makeDirectory_eq_ok (h : t.makeDirectory a = .ok t') :
    ∃ place name, t.walk (t.origin a) (Path.pieces (trimSlashes a)).dropLast = .ok place ∧
      t.at? place = some .directory ∧ (Path.pieces (trimSlashes a)).getLast? = some name ∧
      isDots name = false ∧ Path.isLongName name = false ∧ t.at? (place ++ [name]) = none ∧
      t' = t.put (place ++ [name]) .directory := by
  unfold makeDirectory at h
  cases htarget : t.target a with
  | error e =>
    rw [htarget] at h
    cases h
  | ok r =>
    obtain ⟨place, name⟩ := r
    rw [htarget] at h
    simp only [step] at h
    obtain ⟨-, hwalk, hunder, hlast⟩ := target_eq_ok_iff.mp htarget
    split_ifs at h with hdots hlong
    rw [Bool.not_eq_true] at hdots hlong
    cases hfree : t.at? (place ++ [name]) with
    | some found =>
      rw [hfree] at h
      cases h
    | none =>
      rw [hfree] at h
      exact ⟨place, name, hwalk, hunder, hlast, hdots, hlong, hfree, (Except.ok.inj h).symm⟩

/-- A directory that is on the way to a path is made as one. -/
theorem grows_makeDirectory (ha : Approaches path a) (h : t.makeDirectory a = .ok t') :
    Grows path t t' := by
  obtain ⟨place, name, hwalk, hunder, hlast, hdots, hlong, hfree, rfl⟩ := makeDirectory_eq_ok h
  have hnew : place ++ [name] ≠ [] := by simp
  -- The last piece of the empty path and of the root is empty, and names no new entry.
  rcases ha with rfl | hroot | ⟨habsolute, hbegins⟩
  · cases (Option.some.inj hlast : "" = name)
    exact absurd hdots (by decide)
  · rw [hroot] at hlast
    cases (Option.some.inj hlast : "" = name)
    exact absurd hdots (by decide)
  · refine ⟨put_here t _ _, fun q e hq => ?_, fun q hq => ?_⟩
    · have hne : q ≠ place ++ [name] := by
        rintro rfl
        rw [hfree] at hq
        cases hq
      rw [at?_put t hnew, if_neg hne, hq]
    · rw [at?_put t hnew]
      split_ifs with hqnew
      · -- The pieces that lead to the new directory are first ones of the path.
        refine Or.inr ⟨rfl, _, hbegins, ?_⟩
        have horigin : t.origin path = t.origin a := by rw [origin, origin, habsolute]
        rw [origin_put, horigin, hqnew, ← List.dropLast_append_getLast? name hlast]
        exact walk_put hwalk hunder hdots hlong (by simp [hfree]) _
      · exact Or.inl hq

/-! ## A chain of directories -/

/-- Whether or not all of them can be made, what was made is on the way. -/
theorem grows_makeAll (fuel : Nat) (ha : Approaches path a) :
    Grows path t (t.makeAll fuel a).1 := by
  induction fuel generalizing t a with
  | zero => exact .refl path t
  | succ fuel ih =>
    rw [makeAll]
    by_cases hempty : a.isEmpty = true
    · rw [if_pos hempty]
      exact .refl path t
    · rw [if_neg hempty]
      split
      next made hmade => exact grows_makeDirectory ha hmade
      next =>
        split
        next => exact .refl path t
        next above habove =>
          -- What is missing above comes first, and stays when the directory itself is refused then.
          have habove : Grows path t (t.makeAll fuel above).1 := ih (ha.parent habove)
          split
          next t₁ e hall => rwa [hall] at habove
          next t₁ u hall =>
            rw [hall] at habove
            split
            next made hmade => exact habove.trans (grows_makeDirectory ha hmade)
            next => exact habove
      next => exact .refl path t

theorem grows_makeDirectories (t : FileTree) (ha : Approaches path a) :
    Grows path t (t.makeDirectories a).1 := grows_makeAll _ ha

/-! ## A file -/

/-- From one state to the other a file was written at the place that a path leads to, where no
    directory stood, and directories were made that were missing on the way. -/
structure OnlyWrites (path : String) (place : List String) (t t' : FileTree) : Prop where
  here : t'.here = t.here
  found : t'.locate path = .ok place
  file : ∃ bytes, t'.at? place = some (.file bytes)
  replaces : t.at? place ≠ some .directory
  others : ∀ q, q ≠ place → t'.at? q = t.at? q ∨
    t.at? q = none ∧ t'.at? q = some .directory ∧ t'.OnTheWay path q

/-- A file that is written after the directories on the way to it were made. -/
theorem Grows.onlyWrites {text : String} (h : Grows path t t')
    (hwrite : t'.writeText path text = .ok t'') : ∃ place, OnlyWrites path place t t'' := by
  obtain ⟨place, hne, hat, rfl, hlocate⟩ := exists_place_of_writeText hwrite
  have hput := at?_put t' hne (.file text.toUTF8)
  refine ⟨place, (put_here t' _ _).trans h.here, hlocate, ⟨_, by rw [hput, if_pos rfl]⟩,
    fun hold => hat (h.keeps place _ hold), fun q hq => ?_⟩
  rw [hput, if_neg hq]
  cases hold : t.at? q with
  | some e => exact Or.inl (h.keeps q e hold)
  | none =>
    rcases h.adds q hold with hnone | ⟨hmade, hway⟩
    · exact Or.inl hnone
    · -- The file is in the way of no walk to a directory.
      exact Or.inr ⟨rfl, hmade, (passes_put hne hat _).onTheWay (put_here t' _ _) hway⟩

end Lexis.FileTree
