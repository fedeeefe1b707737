import Lexis.Proofs.Path

/-!
  Lexis.Proofs.FileTree

  What is written to a file is read from it, under the same path. Putting an entry at a place
  changes what stands there and nothing else, and where no directory stood, every walk that went
  through goes through still.
-/

namespace Lexis.FileTree

variable {t t' : FileTree} {place new : List String}

/-! ## Places -/

theorem lookup_cons_eq (key : List String) (found : Entry) (es : List (List String × Entry))
    (q : List String) :
    ((key, found) :: es).lookup q = if q = key then some found else es.lookup q := by
  rw [List.lookup_cons]
  by_cases hq : q = key
  · simp [hq]
  · have hne : (q == key) = false := by simpa using hq
    rw [if_neg hq, hne]

theorem lookup_replace (es : List (List String × Entry)) (new : List String) (e : Entry)
    (q : List String) :
    (es.map fun p => if p.1 = new then (new, e) else p).lookup q =
      if q = new then (es.lookup new).map fun _ => e else es.lookup q := by
  induction es with
  | nil => simp
  | cons p es ih =>
    obtain ⟨key, found⟩ := p
    rw [List.map_cons]
    by_cases hkey : key = new
    · simp only [if_pos hkey]
      rw [lookup_cons_eq, lookup_cons_eq, lookup_cons_eq, ih, hkey, if_pos rfl]
      split_ifs with hq
      · rfl
      · rfl
    · simp only [if_neg hkey]
      rw [lookup_cons_eq, lookup_cons_eq, lookup_cons_eq, ih, if_neg (Ne.symm hkey)]
      split_ifs with hq hnew
      · exact absurd (hq.symm.trans hnew) hkey
      · rfl
      · rfl
      · rfl

theorem lookup_eq_none_iff_any {es : List (List String × Entry)} :
    es.lookup new = none ↔ es.any (·.1 = new) = false := by
  rw [List.lookup_eq_none_iff, List.any_eq_false]
  refine forall₂_congr fun p _ => ?_
  simp only [bne_iff_ne, ne_eq, decide_eq_true_eq]
  exact not_congr eq_comm

/-- Putting an entry at a place changes what stands there, and nothing else. -/
theorem at?_put (t : FileTree) (h : new ≠ []) (e : Entry) (q : List String) :
    (t.put new e).at? q = if q = new then some e else t.at? q := by
  have hroot : ∀ {t : FileTree} {q : List String}, q ≠ [] → t.at? q = t.entries.lookup q := by
    intro t q hq
    rw [at?, if_neg (by simpa using hq)]
  -- the root has no entry of its own, so it is looked at apart
  by_cases hq : q = []
  · have hnew : q ≠ new := fun hnew => h (hnew ▸ hq)
    rw [if_neg hnew, at?, at?, if_pos (by simp [hq]), if_pos (by simp [hq])]
  · rw [hroot hq, hroot hq, put]
    split_ifs with hany hnew hnew
    · obtain ⟨found, hfound⟩ : ∃ found, t.entries.lookup new = some found := by
        refine Option.ne_none_iff_exists'.mp fun hnone => ?_
        exact Bool.false_ne_true ((lookup_eq_none_iff_any.mp hnone).symm.trans hany)
      rw [lookup_replace, if_pos hnew, hfound]
      rfl
    · rw [lookup_replace, if_neg hnew]
    · have hnone : t.entries.lookup new = none := lookup_eq_none_iff_any.mpr (Bool.not_eq_true _ ▸ hany)
      rw [List.lookup_append, hnew, hnone, lookup_cons_eq, if_pos rfl]
      rfl
    · rw [List.lookup_append, lookup_cons_eq, if_neg hnew]
      exact Option.or_none

theorem put_here (t : FileTree) (new : List String) (e : Entry) :
    (t.put new e).here = t.here := by
  unfold put
  split <;> rfl

/-! ## Walks -/

/-- Where a piece of a path leads. -/
def next (t : FileTree) (place : List String) (piece : String) : Except OsError (List String) :=
  match t.at? place with
  | none => .error .notFound
  | some (.file _) => .error .notDirectory
  | some .directory =>
    if piece = "" || piece = "." then .ok place
    else if piece = ".." then .ok place.dropLast
    else
      match t.step place piece with
      | .error e => .error e
      | .ok none => .error .notFound
      | .ok (some _) => .ok (place ++ [piece])

/-- A walk follows its pieces one by one. -/
theorem walk_eq_foldlM (t : FileTree) (place ps : List String) :
    t.walk place ps = ps.foldlM t.next place := by
  induction ps generalizing place with
  | nil => rfl
  | cons piece ps ih =>
    rw [List.foldlM_cons]
    unfold walk next
    cases t.at? place with
    | none => rfl
    | some found =>
      cases found with
      | file bytes => rfl
      | directory =>
        simp only
        split_ifs
        · exact ih _
        · exact ih _
        · cases t.step place piece with
          | error e => rfl
          | ok found =>
            cases found with
            | none => rfl
            | some found => exact ih _

theorem walk_append {o ps : List String} (h : t.walk o ps = .ok place) (qs : List String) :
    t.walk o (ps ++ qs) = t.walk place qs := by
  rw [walk_eq_foldlM] at h ⊢
  rw [List.foldlM_append, h, walk_eq_foldlM]
  rfl

/-- A piece is followed from a directory: it stays there, goes up, or goes down to what stands
    there under that name. -/
theorem next_eq_ok_iff {piece : String} {place' : List String} :
    t.next place piece = .ok place' ↔
      t.at? place = some .directory ∧
        ((piece = "" ∨ piece = ".") ∧ place' = place ∨ piece = ".." ∧ place' = place.dropLast ∨
          isDots piece = false ∧ Path.isLongName piece = false ∧
            (t.at? (place ++ [piece])).isSome = true ∧ place' = place ++ [piece]) := by
  unfold next step
  cases t.at? place with
  | none => simp
  | some found =>
    cases found with
    | file bytes => simp
    | directory =>
      simp only [Bool.or_eq_true, decide_eq_true_eq]
      split_ifs with hstay hup hlong
      · have hup : piece ≠ ".." := by
          rintro rfl
          exact absurd hstay (by decide)
        grind [isDots]
      · grind [isDots]
      · grind [isDots]
      · cases t.at? (place ++ [piece]) with
        | none => grind
        | some found => grind [isDots]

/-- Every directory of the first state is one in the second, and nothing that stands is gone. -/
structure Passes (t t' : FileTree) : Prop where
  directory : ∀ q, t.at? q = some .directory → t'.at? q = some .directory
  stands : ∀ q, (t.at? q).isSome = true → (t'.at? q).isSome = true

theorem Passes.next (hp : t.Passes t') {piece : String} {place' : List String}
    (h : t.next place piece = .ok place') : t'.next place piece = .ok place' := by
  obtain ⟨hplace, hpiece⟩ := next_eq_ok_iff.mp h
  refine next_eq_ok_iff.mpr ⟨hp.directory _ hplace, ?_⟩
  rcases hpiece with hstay | hup | ⟨hdots, hlong, hfound, hdown⟩
  · exact .inl hstay
  · exact .inr (.inl hup)
  · exact .inr (.inr ⟨hdots, hlong, hp.stands _ hfound, hdown⟩)

/-- A walk that goes through still does when no directory is replaced. -/
theorem Passes.walk (hp : t.Passes t') {o ps : List String} (h : t.walk o ps = .ok place) :
    t'.walk o ps = .ok place := by
  rw [walk_eq_foldlM] at h ⊢
  induction ps generalizing o with
  | nil => exact h
  | cons piece ps ih =>
    rw [List.foldlM_cons] at h ⊢
    cases hnext : t.next o piece with
    | error e =>
      rw [hnext] at h
      exact nomatch h
    | ok o' =>
      rw [hnext] at h
      rw [hp.next hnext]
      exact ih h

/-- What is put where no directory stood is in the way of no walk. -/
theorem passes_put (hnew : new ≠ []) (hat : t.at? new ≠ some .directory) (e : Entry) :
    t.Passes (t.put new e) where
  directory q hq := by
    have hne : q ≠ new := fun heq => hat (heq ▸ hq)
    rw [at?_put t hnew, if_neg hne, hq]
  stands q hq := by
    rw [at?_put t hnew]
    split_ifs
    · rfl
    · exact hq

/-- What is put in a directory under a name is found one piece further. -/
theorem walk_put {o ps : List String} {name : String} (hwalk : t.walk o ps = .ok place)
    (hunder : t.at? place = some .directory) (hdots : isDots name = false)
    (hlong : Path.isLongName name = false) (hat : t.at? (place ++ [name]) ≠ some .directory)
    (e : Entry) : (t.put (place ++ [name]) e).walk o (ps ++ [name]) = .ok (place ++ [name]) := by
  have hnew : place ++ [name] ≠ [] := by simp
  have hpasses := passes_put hnew hat e
  have hlast : (t.put (place ++ [name]) e).next place name = .ok (place ++ [name]) := by
    refine next_eq_ok_iff.mpr ⟨hpasses.directory _ hunder, .inr (.inr ⟨hdots, hlong, ?_, rfl⟩)⟩
    rw [at?_put t hnew, if_pos rfl]
    rfl
  rw [walk_append (hpasses.walk hwalk), walk_eq_foldlM, List.foldlM_cons, hlast]
  rfl

theorem origin_put (t : FileTree) (new : List String) (e : Entry) (path : String) :
    (t.put new e).origin path = t.origin path := by
  rw [origin, origin, put_here]

/-! ## Files -/

theorem pathExists_of_locate {path : String} {e : Entry} (h : t.locate path = .ok place)
    (he : t.at? place = some e) : t.pathExists path = true := by
  rw [pathExists, find?, h]
  simp only [he]
  rfl

theorem readText_of_locate {path : String} {bytes : ByteArray} (h : t.locate path = .ok place)
    (hfile : t.at? place = some (.file bytes)) : t.readText path = decode bytes := by
  rw [readText, h]
  simp only [hfile]
  rfl

theorem trimSlashes_of_not_endsWithSlash {path : String} (h : endsWithSlash path = false) :
    trimSlashes path = path := by
  have hreverse : path.toList.reverse.dropWhile (· = '/') = path.toList.reverse := by
    rw [endsWithSlash, decide_eq_false_iff_not, ← List.head?_reverse] at h
    cases hcs : path.toList.reverse with
    | nil => rfl
    | cons c cs =>
      rw [hcs] at h
      exact List.dropWhile_cons_of_neg (by simpa using h)
  simp only [trimSlashes, hreverse, List.reverse_reverse, String.ofList_toList]
  rw [if_neg]
  simp

/-- A file can be written at the path: in a directory, under a name of its own. -/
structure Receives (t : FileTree) (path : String) (place : List String) (name : String) :
    Prop where
  accepted : accept path = .ok ()
  walk : t.walk (t.origin path) (Path.pieces path).dropLast = .ok place
  under : t.at? place = some .directory
  last : (Path.pieces path).getLast? = some name
  noSlash : endsWithSlash path = false
  noDots : isDots name = false
  short : Path.isLongName name = false
  noDirectory : t.at? (place ++ [name]) ≠ some .directory

theorem exists_last_piece (path : String) : ∃ last, (Path.pieces path).getLast? = some last :=
  ⟨_, List.getLast?_eq_some_getLast (Path.pieces_ne_nil path)⟩

theorem target_eq_ok_iff {path name : String} :
    t.target path = .ok (place, name) ↔
      accept path = .ok () ∧
        t.walk (t.origin path) (Path.pieces (trimSlashes path)).dropLast = .ok place ∧
        t.at? place = some .directory ∧
        (Path.pieces (trimSlashes path)).getLast? = some name := by
  obtain ⟨last, hlast⟩ := exists_last_piece (trimSlashes path)
  simp only [target, hlast, Option.getD_some]
  cases accept path with
  | error e => simp
  | ok u =>
    cases t.walk (t.origin path) (Path.pieces (trimSlashes path)).dropLast with
    | error e => simp
    | ok under =>
      simp only [Except.ok.injEq, Option.some.injEq, true_and]
      cases hunder : t.at? under with
      | none => grind
      | some found =>
        cases found with
        | file bytes => grind
        | directory => grind

/-- Writing a file succeeds where the path can receive one, whatever the text. -/
theorem writeText_eq_ok_iff {path text : String} :
    t.writeText path text = .ok t' ↔
      ∃ place name, t.Receives path place name ∧
        t' = t.put (place ++ [name]) (.file text.toUTF8) := by
  constructor
  · intro h
    unfold writeText at h
    cases htarget : t.target path with
    | error e =>
      rw [htarget] at h
      exact nomatch h
    | ok r =>
      obtain ⟨place, name⟩ := r
      rw [htarget] at h
      simp only [step] at h
      split_ifs at h with hname hlong
      rw [Bool.or_eq_true, not_or, Bool.not_eq_true, Bool.not_eq_true] at hname
      rw [target_eq_ok_iff, trimSlashes_of_not_endsWithSlash hname.1] at htarget
      obtain ⟨haccept, hwalk, hunder, hlast⟩ := htarget
      have hfree : t.at? (place ++ [name]) ≠ some .directory := by
        intro hat
        rw [hat] at h
        exact nomatch h
      refine ⟨place, name, ⟨haccept, hwalk, hunder, hlast, hname.1, hname.2,
        (Bool.not_eq_true _).mp hlong, hfree⟩, ?_⟩
      split at h
      next heq => exact nomatch heq
      next => exact nomatch h
      next => exact (Except.ok.inj h).symm
  · rintro ⟨place, name, h, rfl⟩
    have htarget : t.target path = .ok (place, name) := by
      rw [target_eq_ok_iff, trimSlashes_of_not_endsWithSlash h.noSlash]
      exact ⟨h.accepted, h.walk, h.under, h.last⟩
    simp only [writeText, htarget, step, h.noSlash, h.noDots, h.short, Bool.or_self,
      Bool.false_eq_true, if_false]
    split
    next heq => exact nomatch heq
    next heq => exact absurd (Except.ok.inj heq) h.noDirectory
    next => rfl

theorem decode_toUTF8 (text : String) : decode text.toUTF8 = .ok text := by
  have hvalid : String.fromUTF8? text.toUTF8 = some text := by
    unfold String.fromUTF8?
    exact dif_pos text.isValidUTF8
  rw [decode, hvalid]

/-- Writing a file puts it at one place, where no directory stood, and the path leads there. -/
theorem exists_place_of_writeText {path text : String} (h : t.writeText path text = .ok t') :
    ∃ place, place ≠ [] ∧ t.at? place ≠ some .directory ∧
      t' = t.put place (.file text.toUTF8) ∧ t'.locate path = .ok place := by
  obtain ⟨place, name, hpath, rfl⟩ := writeText_eq_ok_iff.mp h
  have hpieces : Path.pieces path = (Path.pieces path).dropLast ++ [name] :=
    (List.dropLast_append_getLast? name hpath.last).symm
  refine ⟨place ++ [name], by simp, hpath.noDirectory, rfl, ?_⟩
  rw [locate, hpath.accepted, origin_put, hpieces]
  exact walk_put hpath.walk hpath.under hpath.noDots hpath.short hpath.noDirectory _

/-- A file that was written is found under its path. -/
theorem locate_writeText {path text : String} (h : t.writeText path text = .ok t') :
    ∃ place, t'.locate path = .ok place ∧ t'.at? place = some (.file text.toUTF8) := by
  obtain ⟨place, hplace, -, rfl, hlocate⟩ := exists_place_of_writeText h
  exact ⟨place, hlocate, by rw [at?_put t hplace, if_pos rfl]⟩

theorem readText_writeText {path text : String} (h : t.writeText path text = .ok t') :
    t'.readText path = .ok text := by
  obtain ⟨place, hplace, hfile⟩ := locate_writeText h
  rw [readText_of_locate hplace hfile, decode_toUTF8]

theorem pathExists_writeText {path text : String} (h : t.writeText path text = .ok t') :
    t'.pathExists path = true := by
  obtain ⟨place, hplace, hfile⟩ := locate_writeText h
  exact pathExists_of_locate hplace hfile

end Lexis.FileTree
