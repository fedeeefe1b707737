import Lexis.FileTree
import Mathlib.Data.List.DropRight

/-!
  Lexis.Proofs.Path

  Paths through their pieces. A path is its pieces with slashes between them, slashes at its end are
  empty pieces at the end, and a file below a directory adds one piece. The path above a path, unless
  it is the root or empty, has a first part of the pieces, and the last of them is a name
  (`Leading`); so is a path without the slashes at its end.
-/

namespace Lexis.Path

variable {path above : String} {xs ys zs : List String}

/-! ## Pieces -/

theorem notMem_of_mem_splitOn {c : Char} {cs piece : List Char} (h : piece ∈ cs.splitOn c) :
    c ∉ piece := by
  induction cs generalizing piece with
  | nil =>
    rw [List.splitOn_nil, List.mem_singleton] at h
    simp [h]
  | cons d cs ih =>
    rw [List.splitOn_cons_eq_if_modifyHead] at h
    split_ifs at h with hd
    · rcases List.mem_cons.mp h with rfl | h
      · exact List.not_mem_nil
      · exact ih h
    · -- The character goes to the front of the first piece.
      obtain ⟨first, rest, hsplit⟩ := List.exists_cons_of_ne_nil (List.splitOn_ne_nil c cs)
      rw [hsplit, List.modifyHead_cons] at h
      rcases List.mem_cons.mp h with rfl | h
      · have hfirst : c ∉ first := ih (hsplit ▸ List.mem_cons_self)
        have hne : c ≠ d := fun hcd => hd (by simp [hcd])
        simp [hne, hfirst]
      · exact ih (hsplit ▸ List.mem_cons_of_mem first h)

theorem slash_notMem_of_mem_pieces {piece : String} (h : piece ∈ pieces path) :
    '/' ∉ piece.toList := by
  obtain ⟨cs, hcs, rfl⟩ := List.mem_map.mp h
  rw [String.toList_ofList]
  exact notMem_of_mem_splitOn hcs

theorem pieces_ne_nil (path : String) : pieces path ≠ [] := by
  rw [pieces, Ne, List.map_eq_nil_iff]
  exact List.splitOn_ne_nil '/' path.toList

theorem intercalate_pieces (path : String) : "/".intercalate (pieces path) = path := by
  apply String.toList_inj.mp
  rw [String.toList_intercalate, pieces, List.map_map]
  have hid : (String.toList ∘ String.ofList) = id := funext fun _ => String.toList_ofList
  rw [hid, List.map_id]
  exact List.intercalate_splitOn '/'

theorem pieces_intercalate (hne : xs ≠ []) (h : ∀ x ∈ xs, '/' ∉ x.toList) :
    pieces ("/".intercalate xs) = xs := by
  have hslash : ∀ l ∈ xs.map String.toList, '/' ∉ l := by
    intro l hl
    obtain ⟨x, hx, rfl⟩ := List.mem_map.mp hl
    exact h x hx
  rw [pieces, String.toList_intercalate]
  show (((['/'].intercalate (xs.map String.toList))).splitOn '/').map String.ofList = xs
  rw [List.splitOn_intercalate '/' hslash (by simpa using hne), List.map_map]
  simp [Function.comp_def]

/-- A slash divides the pieces of a path. -/
theorem pieces_append_slash (as bs : List Char) :
    pieces (String.ofList (as ++ '/' :: bs)) =
      pieces (String.ofList as) ++ pieces (String.ofList bs) := by
  simp only [pieces, String.toList_ofList, List.splitOn_append_cons_self, List.map_append]

theorem pieces_append_slashes (as : List Char) (n : Nat) :
    pieces (String.ofList (as ++ List.replicate n '/')) =
      pieces (String.ofList as) ++ List.replicate n "" := by
  induction n with
  | zero => simp
  | succ n ih =>
    have hlast : as ++ List.replicate (n + 1) '/' = (as ++ List.replicate n '/') ++ '/' :: [] := by
      rw [List.replicate_succ', List.append_assoc]
    rw [hlast, pieces_append_slash, ih, List.replicate_succ', List.append_assoc]
    rfl

/-- An absolute path has a slash after an empty piece. -/
theorem isAbsolute_eq_true_iff {first : String} {rest : List String}
    (h : pieces path = first :: rest) : isAbsolute path = true ↔ first = "" ∧ rest ≠ [] := by
  have hpath := intercalate_pieces path
  have hslash : '/' ∉ first.toList := slash_notMem_of_mem_pieces (h ▸ List.mem_cons_self)
  have hhead : first.toList.head? ≠ some '/' := fun hc => hslash (List.mem_of_head? hc)
  rw [isAbsolute, decide_eq_true_iff, ← hpath, h]
  cases rest with
  | nil => simpa using hhead
  | cons second rest =>
    by_cases hfirst : first = ""
    · simp [hfirst]
    · have hne : first.toList ≠ [] := by simpa using hfirst
      rw [String.intercalate_cons_cons, String.toList_append, String.toList_append,
        List.append_assoc, List.head?_append_of_ne_nil _ hne]
      simp [hfirst, hhead]

/-! ## Leading paths -/

/-- The path has a first part of some pieces, of which the last is not empty, and begins where the
    pieces do. -/
structure Leading (ps : List String) (absolute : Bool) (path : String) : Prop where
  begins : pieces path <+: ps
  last : ∀ piece, (pieces path).getLast? = some piece → piece ≠ ""
  origin : isAbsolute path = absolute

/-- Empty pieces at the end do not count for a beginning that ends with a name. -/
theorem prefix_of_prefix_append (h : xs <+: ys ++ zs) (hzs : ∀ z ∈ zs, z = "")
    (hlast : ∀ piece, xs.getLast? = some piece → piece ≠ "") : xs <+: ys := by
  rcases List.prefix_or_prefix_of_prefix h (List.prefix_append ys zs) with hxs | ⟨ws, rfl⟩
  · exact hxs
  · cases ws using List.reverseRecOn with
    | nil => exact ⟨[], by simp⟩
    | append_singleton ws w =>
      have hw : w ∈ zs := ((List.prefix_append_right_inj ys).mp h).subset (by simp)
      exact absurd (hzs w hw) (hlast w (by simp))

theorem getLast_dropIdle (ps : List String) {piece : String}
    (h : (dropIdle ps).getLast? = some piece) : piece ≠ "" := by
  rintro rfl
  rw [dropIdle, List.getLast?_reverse] at h
  have hkept := List.head?_dropWhile_not (fun s : String => s = "" || s = ".") ps.reverse
  rw [h] at hkept
  simp at hkept

theorem dropIdle_isPrefix (ps : List String) : dropIdle ps <+: ps := List.rdropWhile_prefix _ ps

theorem dropLast_isPrefix (h : xs <+: ys) :
    xs.dropLast <+: ys.dropLast := by
  obtain ⟨zs, rfl⟩ := h
  cases zs with
  | nil => simp
  | cons z zs =>
    rw [List.dropLast_append_of_ne_nil (by simp)]
    exact ( List.dropLast_prefix xs).trans (List.prefix_append _ _)

theorem leading_intercalate {first : String} {rest names : List String}
    (hpieces : pieces path = first :: rest) (hrest : rest ≠ []) (hnames : names <+: rest.dropLast)
    (hlast : ∀ piece, (first :: names).getLast? = some piece → piece ≠ "") :
    Leading (pieces path).dropLast (isAbsolute path) ("/".intercalate (first :: names)) := by
  have hsub : ∀ x ∈ first :: names, x ∈ first :: rest := by
    intro x hx
    refine (List.mem_cons.mp hx).elim (fun hx => hx ▸ List.mem_cons_self) fun hx => ?_
    exact List.mem_cons_of_mem first (( List.dropLast_prefix rest).subset (hnames.subset hx))
  have hsplit : pieces ("/".intercalate (first :: names)) = first :: names :=
    pieces_intercalate (by simp) fun x hx => slash_notMem_of_mem_pieces (hpieces ▸ hsub x hx)
  refine ⟨?_, by rwa [hsplit], ?_⟩
  · rw [hsplit, hpieces, List.dropLast_cons_of_ne_nil hrest]
    exact List.cons_prefix_cons.mpr ⟨rfl, hnames⟩
  · rw [Bool.eq_iff_iff, isAbsolute_eq_true_iff hsplit, isAbsolute_eq_true_iff hpieces]
    -- Without further names the first piece is the last, and not empty.
    refine and_congr_right fun hfirst => iff_of_true ?_ hrest
    rintro rfl
    exact hlast first rfl hfirst

/-- The path above a path leads towards it, unless it is the root or the empty path. -/
theorem leading_of_parent? (h : parent? path = some above) :
    above = "" ∨ above = "/" ∨ Leading (pieces path).dropLast (isAbsolute path) above := by
  obtain ⟨first, rest, hpieces⟩ := List.exists_cons_of_ne_nil (pieces_ne_nil path)
  unfold parent? at h
  rw [hpieces] at h
  simp only at h
  split at h
  next hidle =>
    split_ifs at h
    exact Or.inl (Option.some.inj h).symm
  next hnames =>
    have hrest : rest ≠ [] := by
      rintro rfl
      exact hnames rfl
    split at h
    next hidle =>
      split_ifs at h with hfirst
      · exact Or.inr (Or.inl (Option.some.inj h).symm)
      · obtain rfl := Option.some.inj h
        have hleading := leading_intercalate hpieces hrest List.nil_prefix
          (by simpa using hfirst)
        rw [String.intercalate_singleton] at hleading
        exact Or.inr (Or.inr hleading)
    next haboves =>
      obtain rfl := Option.some.inj h
      refine Or.inr (Or.inr (leading_intercalate hpieces hrest ?_ ?_))
      · exact (dropIdle_isPrefix _).trans (dropLast_isPrefix (dropIdle_isPrefix rest))
      · intro piece hpiece
        rw [List.getLast?_cons_of_ne_nil haboves] at hpiece
        exact getLast_dropIdle _ hpiece

/-! ## Slashes at the end -/

theorem getLast?_pieces_ne (hne : path ≠ "") (hslash : FileTree.endsWithSlash path = false)
    {piece : String} (h : (pieces path).getLast? = some piece) : piece ≠ "" := by
  rintro rfl
  obtain ⟨before, hpieces⟩ := List.getLast?_eq_some_iff.mp h
  have hpath := intercalate_pieces path
  rw [hpieces] at hpath
  by_cases hbefore : before = []
  · exact hne (by simpa [hbefore] using hpath.symm)
  · rw [String.intercalate_append_of_ne_nil hbefore (by simp)] at hpath
    rw [← hpath] at hslash
    simp [FileTree.endsWithSlash] at hslash

/-- Without the slashes at its end, a path that is not empty is the root, or has all pieces but
    empty ones at the end. -/
theorem trimSlashes_cases (h : path ≠ "") :
    (FileTree.trimSlashes path = "/" ∧ ∀ piece ∈ pieces path, piece = "") ∨
      ∃ n, pieces path = pieces (FileTree.trimSlashes path) ++ List.replicate n "" ∧
        ∀ piece, (pieces (FileTree.trimSlashes path)).getLast? = some piece → piece ≠ "" := by
  obtain ⟨core, n, hcore, hpath⟩ : ∃ core n, core = path.toList.rdropWhile (· = '/') ∧
      path.toList = core ++ List.replicate n '/' := by
    refine ⟨_, (path.toList.rtakeWhile (· = '/')).length, rfl, ?_⟩
    have hslashes : path.toList.rtakeWhile (· = '/') =
        List.replicate (path.toList.rtakeWhile (· = '/')).length '/' :=
      List.eq_replicate_of_mem fun c hc => by simpa using List.mem_rtakeWhile_imp hc
    rw [← hslashes, List.rdropWhile_append_rtakeWhile]
  have hpieces : pieces path = pieces (String.ofList core) ++ List.replicate n "" := by
    rw [← pieces_append_slashes, ← hpath, String.ofList_toList]
  have htrim : FileTree.trimSlashes path = if core = [] then "/" else String.ofList core := by
    simp [FileTree.trimSlashes, hcore, List.rdropWhile, h]
  by_cases hnil : core = []
  · refine Or.inl ⟨by rw [htrim, if_pos hnil], fun piece hpiece => ?_⟩
    rw [hpieces, hnil, List.mem_append] at hpiece
    rcases hpiece with hpiece | hpiece
    · exact List.mem_singleton.mp hpiece
    · exact List.eq_of_mem_replicate hpiece
  · rw [if_neg hnil] at htrim
    refine Or.inr ⟨n, by rw [htrim, hpieces], fun piece hpiece => ?_⟩
    rw [htrim] at hpiece
    refine getLast?_pieces_ne (by simpa using hnil) ?_ hpiece
    have hlast : core.getLast hnil ≠ '/' := by
      have hkept := List.rdropWhile_last_not (fun c : Char => c = '/') path.toList (hcore ▸ hnil)
      simpa [hcore] using hkept
    rw [FileTree.endsWithSlash, String.toList_ofList, List.getLast?_eq_some_getLast hnil]
    simpa using hlast

/-! ## Files in a directory -/

section Join

variable {directory name : String}

theorem pieces_eq_singleton (h : '/' ∉ name.toList) : pieces name = [name] := by
  rw [pieces, List.splitOn_eq_singleton h, List.map_singleton, String.ofList_toList]

theorem join_of_ne (hd : directory ≠ "") (hname : '/' ∉ name.toList) :
    join directory name = if directory.toList.getLast? = some '/' then directory ++ name
      else directory ++ "/" ++ name := by
  have habsolute : isAbsolute name = false := by
    rw [isAbsolute, decide_eq_false_iff_not]
    exact fun hc => hname (List.mem_of_head? hc)
  simp [join, habsolute, hd]

/-- The pieces of a file in a directory are those of the directory, without the empty one after a
    slash at its end, and the name of the file. -/
theorem dropLast_pieces_join (hd : directory ≠ "") (hname : '/' ∉ name.toList) :
    pieces directory = (pieces (join directory name)).dropLast ∨
      pieces directory = (pieces (join directory name)).dropLast ++ [""] := by
  have hlast : pieces (String.ofList name.toList) = [name] := by
    rw [String.ofList_toList, pieces_eq_singleton hname]
  rw [join_of_ne hd hname]
  split_ifs with hslash
  · obtain ⟨cs, hcs⟩ := List.getLast?_eq_some_iff.mp hslash
    have hfile : directory ++ name = String.ofList (cs ++ '/' :: name.toList) := by
      apply String.toList_inj.mp
      simp [hcs]
    have hdirectory : directory = String.ofList (cs ++ '/' :: []) := by
      rw [← hcs, String.ofList_toList]
    refine Or.inr ?_
    rw [hfile, pieces_append_slash, hlast, List.dropLast_concat, hdirectory, pieces_append_slash]
    rfl
  · have hfile : directory ++ "/" ++ name =
        String.ofList (directory.toList ++ '/' :: name.toList) := by
      apply String.toList_inj.mp
      simp
    refine Or.inl ?_
    rw [hfile, pieces_append_slash, hlast, List.dropLast_concat, String.ofList_toList]

theorem isAbsolute_join (hd : directory ≠ "") (hname : '/' ∉ name.toList) :
    isAbsolute (join directory name) = isAbsolute directory := by
  have hne : directory.toList ≠ [] := by simpa using hd
  rw [join_of_ne hd hname, isAbsolute, isAbsolute]
  split_ifs with hslash
  · rw [String.toList_append, List.head?_append_of_ne_nil _ hne]
  · rw [String.toList_append, String.toList_append, List.append_assoc,
      List.head?_append_of_ne_nil _ hne]

end Join

end Lexis.Path
