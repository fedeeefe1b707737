import Lexis.Proofs.ScanCommands
import Lexis.Proofs.TokenOutput

/-!
  Lexis.Proofs.InputNames

  The tokens of several inputs are printed as JSON under the names of the inputs, and two inputs of
  one name have one entry. All paths here are texts, and a text is shown as it is; a path that is no
  text would be shown with characters replaced, and two of those can look alike. So different paths
  have different names, but for one pair: what is read from standard input goes by a name that a
  file can have. Apart from that pair there is an entry for every input that tokenizes
  (`byName_eq_of_nodup`, `nodup_displayNames`); with it there is one entry less
  (`length_names_of_ambiguous`).
-/

namespace Lexis

/-! ## Names of paths -/

namespace Path

/-- Standard input is among the paths, and so is a file under the name that is shown for it. -/
def Ambiguous (paths : List String) : Prop :=
  "<stdin>" ∈ paths ∧ ∃ p ∈ paths, isStandardInput p = true

variable {paths : List String} {p q : String}

theorem displayName_of_isStandardInput (h : isStandardInput p = true) :
    displayName p = "<stdin>" := if_pos h

theorem displayName_of_not (h : isStandardInput p = false) : displayName p = p :=
  if_neg (by simp [h])

/-- Of standard input there is one path at most. -/
theorem eq_of_isStandardInput (hone : (paths.filter isStandardInput).length ≤ 1) (hp : p ∈ paths)
    (hq : q ∈ paths) (hps : isStandardInput p = true) (hqs : isStandardInput q = true) : p = q := by
  have hp' : p ∈ paths.filter isStandardInput := List.mem_filter.mpr ⟨hp, hps⟩
  have hq' : q ∈ paths.filter isStandardInput := List.mem_filter.mpr ⟨hq, hqs⟩
  match h : paths.filter isStandardInput, hone with
  | [], _ => simp [h] at hp'
  | [x], _ =>
    rw [h, List.mem_singleton] at hp' hq'
    rw [hp', hq']
  | _ :: _ :: _, hlen => simp at hlen

/-- Different paths have different names, unless a file has the name of standard input. -/
theorem nodup_displayNames (hnodup : paths.Nodup)
    (hone : (paths.filter isStandardInput).length ≤ 1) (hclear : ¬Ambiguous paths) :
    (paths.map displayName).Nodup := by
  -- A file that shares its name with standard input is the one that is ruled out.
  have hfile : ∀ {p q}, p ∈ paths → q ∈ paths → isStandardInput p = true →
      isStandardInput q = false → displayName p ≠ displayName q := by
    intro p q hp hq hps hqs heq
    rw [displayName_of_isStandardInput hps, displayName_of_not hqs] at heq
    exact hclear ⟨heq ▸ hq, p, hp, hps⟩
  refine hnodup.map_on fun p hp q hq heq => ?_
  cases hps : isStandardInput p with
  | true =>
    cases hqs : isStandardInput q with
    | true => exact eq_of_isStandardInput hone hp hq hps hqs
    | false => exact absurd heq (hfile hp hq hps hqs)
  | false =>
    cases hqs : isStandardInput q with
    | true => exact absurd heq.symm (hfile hq hp hqs hps)
    | false => rwa [displayName_of_not hps, displayName_of_not hqs] at heq

/-- With a file that has the name of standard input, there is one name less than paths. -/
theorem length_names_of_ambiguous {names : List String} (hnodup : paths.Nodup)
    (hone : (paths.filter isStandardInput).length ≤ 1) (hclash : Ambiguous paths)
    (hnames : names.Nodup) (hmem : ∀ x, x ∈ names ↔ x ∈ paths.map displayName) :
    names.length + 1 = paths.length := by
  obtain ⟨hfile, p, hp, hps⟩ := hclash
  -- The names are the paths of the files, that of standard input being one of them.
  have hperm : names.Perm (paths.filter fun q => !isStandardInput q) := by
    refine (List.perm_ext_iff_of_nodup hnames (hnodup.filter _)).mpr fun x => ?_
    rw [hmem, List.mem_map, List.mem_filter, Bool.not_eq_true']
    constructor
    · rintro ⟨q, hq, rfl⟩
      cases hqs : isStandardInput q with
      | true =>
        rw [displayName_of_isStandardInput hqs]
        exact ⟨hfile, by decide⟩
      | false =>
        rw [displayName_of_not hqs]
        exact ⟨hq, hqs⟩
    · rintro ⟨hx, hxs⟩
      exact ⟨x, hx, displayName_of_not hxs⟩
  have hsome : 0 < (paths.filter isStandardInput).length :=
    List.length_pos_of_mem (List.mem_filter.mpr ⟨hp, hps⟩)
  have hsplit := List.length_eq_length_filter_add (l := paths) isStandardInput
  have hlength := hperm.length_eq
  omega

end Path

/-! ## Entries by name -/

namespace FileScan

variable {scans : List FileScan}

/-- Where no name is repeated, every success has an entry, in order. -/
theorem byName_eq_of_nodup (h : ((scans.filter (·.tokens?.isSome)).map (·.name)).Nodup) :
    byName scans = scans.filterMap fun x => x.tokens?.map (x.name, ·) := by
  -- The table grows at the end of the list of scans, so the induction is from there.
  induction scans using List.reverseRecOn with
  | nil => rfl
  | append_singleton scans x ih =>
    cases hx : x.tokens? with
    | none =>
      have hscans : (scans ++ [x]).filter (·.tokens?.isSome) =
          scans.filter (·.tokens?.isSome) := by simp [hx]
      rw [hscans] at h
      rw [byName_concat_of_none hx, ih h, List.filterMap_append]
      simp [hx]
    | some ts =>
      have hscans : (scans ++ [x]).filter (·.tokens?.isSome) =
          scans.filter (·.tokens?.isSome) ++ [x] := by simp [hx]
      rw [hscans, List.map_append, List.map_singleton, List.nodup_append] at h
      obtain ⟨hbefore, -, hnew⟩ := h
      have hfresh : x.name ∉ (byName scans).map Prod.fst := by
        rw [(tabulates_byName scans).names, namesOf, List.mem_eraseDups]
        exact fun hmem => hnew _ hmem _ (List.mem_singleton.mpr rfl) rfl
      have hput : put (byName scans) x.name ts = byName scans ++ [(x.name, ts)] := by
        refine if_neg fun hany => hfresh ?_
        simpa using hany
      rw [byName_concat_of_some hx, hput, ih hbefore, List.filterMap_append]
      simp [hx]

theorem forall₂_byName (h : ((scans.filter (·.tokens?.isSome)).map (·.name)).Nodup) :
    List.Forall₂ (fun x f => ∃ ts, x.tokens? = some ts ∧ f = (x.name, tokensJson ts))
      (scans.filter (·.tokens?.isSome)) ((byName scans).map fun p => (p.1, tokensJson p.2)) := by
  have hshown : (byName scans).map (fun p => (p.1, tokensJson p.2)) =
      scans.filterMap fun x => x.tokens?.map fun ts => (x.name, tokensJson ts) := by
    rw [byName_eq_of_nodup h, List.map_filterMap]
    simp [Option.map_map, Function.comp_def]
  have hclean : scans.filter (·.tokens?.isSome) = scans.filter (·.diagnostic.isNone) :=
    List.filter_congr fun x _ => (x.diagnostic_isNone).symm
  rw [hshown, hclean]
  exact forall₂_filterMap_tokens? (fun name ts => (name, tokensJson ts)) scans

/-! ## Inputs that tokenize -/

/-- The paths whose inputs tokenize. -/
def cleanPaths (s : Surroundings) (lx : Lexicon) (t : FileTree) (paths : List String) :
    List String :=
  paths.filter fun path => (ofPath s lx t path).tokens?.isSome

theorem map_name_clean (s : Surroundings) (lx : Lexicon) (t : FileTree) (paths : List String) :
    ((paths.map (ofPath s lx t)).filter (·.tokens?.isSome)).map (·.name) =
      (cleanPaths s lx t paths).map Path.displayName := by
  rw [List.filter_map, List.map_map, cleanPaths]
  exact List.map_congr_left fun path _ => name_ofPath s lx t path

theorem length_blocks (scans : List FileScan) :
    (blocks scans).length = (Summary.ofScans scans).succeeded :=
  (forall₂_filterMap_tokens? (block _) scans).length_eq.symm

end FileScan

open FileScan

/-- The JSON that is printed for two or more different paths, with standard input at most once, is
    an object without repeated names. It has an entry with the tokens of every input that
    tokenizes, in order, and no more, just as the text that is printed has a block for each of them
    and each is counted, unless one of them is standard input and another a file under the name that
    is shown for it. These two have one entry together, with the tokens of the later one, so that
    the entries are one less than the blocks. All of this is about paths that are texts, which are
    shown as they are. -/
theorem json_output_of_distinct_inputs {s : Surroundings} {settings : Settings} {r : ScanRequest}
    {scans : List FileScan} {w w₁ : World} (verbose : Bool) (htwo : 2 ≤ r.files.length)
    (hnodup : r.files.Nodup) (hone : (r.files.filter Path.isStandardInput).length ≤ 1)
    (hscans : (r.scans s settings).run w = .ok scans w₁) :
    ∃ lx fields, ScanRequest.lexicon settings r.overrides = .ok lx ∧
      scans = r.files.map (ofPath s lx w.tree) ∧
      (Session.world ((Command.runLex s settings verbose r (some .json)).run w)).outs =
        w.outs ++ [renderJson scans ++ "\n"] ∧
      Json.read? (renderJson scans) = some (.object fields) ∧
      (fields.map Prod.fst).Nodup ∧
      (Session.world ((Command.runLex s settings verbose r (some .text)).run w)).outs =
        w.outs ++ printed (renderText scans) ∧
      renderText scans = "\n\n".intercalate ((shownLines scans).map ("\n".intercalate ·)) ∧
      (shownLines scans).length = (blocks scans).length ∧
      (blocks scans).length = (Summary.ofScans scans).succeeded ∧
      (¬Path.Ambiguous (cleanPaths s lx w.tree r.files) →
        fields.length = (blocks scans).length ∧
        List.Forall₂ (fun x f => ∃ ts, x.tokens? = some ts ∧ f = (x.name, tokensJson ts))
          (scans.filter (·.tokens?.isSome)) fields) ∧
      (Path.Ambiguous (cleanPaths s lx w.tree r.files) →
        fields.length + 1 = (blocks scans).length ∧
        ∀ f ∈ fields, ∃ ts, lastTokens? scans f.1 = some ts ∧ f.2 = tokensJson ts) := by
  obtain ⟨w₂, hlog, hcases⟩ := run_scans_cases s settings r w
  rcases hcases with ⟨f, hf⟩ | ⟨lx, hlx, hok⟩
  · rw [hf] at hscans
    cases hscans
  · obtain ⟨rfl, rfl⟩ : r.files.map (ofPath s lx w.tree) = scans ∧ w₂ = w₁ := by
      rw [hok] at hscans
      cases hscans
      exact ⟨rfl, rfl⟩
    have htable := tabulates_byName (r.files.map (ofPath s lx w.tree))
    have hlength : (r.files.map (ofPath s lx w.tree)).length ≠ 1 := by
      rw [List.length_map]
      omega
    have hread := read?_renderJson_several hlength
    have hnames := map_name_clean s lx w.tree r.files
    -- What holds of all paths holds of those whose inputs tokenize.
    have hclean : (cleanPaths s lx w.tree r.files).Nodup := hnodup.filter _
    have hcleanOne : ((cleanPaths s lx w.tree r.files).filter Path.isStandardInput).length ≤ 1 :=
      Nat.le_trans (List.filter_sublist.filter Path.isStandardInput).length_le hone
    have hcount : (cleanPaths s lx w.tree r.files).length =
        (blocks (r.files.map (ofPath s lx w.tree))).length := by
      have hlen := congrArg List.length hnames
      rw [List.length_map, List.length_map] at hlen
      rw [← hlen, length_blocks]
      exact congrArg List.length (List.filter_congr fun x _ => (x.diagnostic_isNone).symm)
    refine ⟨lx, _, hlx, rfl, ?_, hread, ?_, lex_prints verbose (some .text) hok hlog,
      (accounts_of_ofPath s hlx w.tree).text, length_shownLines _, length_blocks _,
      fun hclear => ?_, fun hclash => ?_⟩
    · have hout := lex_prints verbose (some .json) hok hlog
      have hne : (renderJson (r.files.map (ofPath s lx w.tree))).isEmpty = false := by
        rw [String.isEmpty_eq_false_iff]
        intro hempty
        rw [hempty] at hread
        exact nomatch hread
      simpa [Command.render, printed, hne] using hout
    · rw [List.map_map]
      exact htable.nodup
    · have hforall := forall₂_byName
        (hnames ▸ Path.nodup_displayNames hclean hcleanOne hclear)
      refine ⟨?_, hforall⟩
      rw [← hforall.length_eq, ← hcount, ← List.length_map (f := Path.displayName), ← hnames,
        List.length_map]
    · constructor
      · rw [List.length_map, ← hcount, ← List.length_map (f := Prod.fst)]
        refine Path.length_names_of_ambiguous hclean hcleanOne hclash htable.nodup fun x => ?_
        rw [htable.names, namesOf, List.mem_eraseDups, hnames]
      · intro f hf
        obtain ⟨p, hp, rfl⟩ := List.mem_map.mp hf
        exact ⟨p.2, htable.last p hp, rfl⟩

/-- Two inputs that tokenize and one that is missing: two entries, and two blocks. -/
theorem json_output_without_missing_file :
    let s : Surroundings := ⟨none, none, 1, .file "a".toUTF8⟩
    let settings : Settings := ⟨false, ⟨.text, none⟩, ⟨["if"], ["<"]⟩⟩
    let r : ScanRequest := ⟨["b", "-", "c"], some 2, .none⟩
    let w : World := ⟨(FileTree.empty ["d"]).put ["d", "b"] (.file "if".toUTF8), #[]⟩
    2 ≤ r.files.length ∧ r.files.Nodup ∧ (r.files.filter Path.isStandardInput).length ≤ 1 ∧
      ∃ scans w₁ fields, (r.scans s settings).run w = .ok scans w₁ ∧
        Json.read? (renderJson scans) = some (.object fields) ∧ fields.length = 2 ∧
        (blocks scans).length = 2 := by
  intro s settings r w
  have htwo : 2 ≤ r.files.length := by decide
  have hnodup : r.files.Nodup := by decide
  have hone : (r.files.filter Path.isStandardInput).length ≤ 1 := by decide +kernel
  obtain ⟨scans, w₁, hscans, hblocks⟩ : ∃ scans w₁,
      (r.scans s settings).run w = .ok scans w₁ ∧ (blocks scans).length = 2 :=
    ⟨_, _, rfl, by decide +kernel⟩
  obtain ⟨lx, fields, -, -, -, hread, -, -, -, -, -, hclear, -⟩ :=
    json_output_of_distinct_inputs true htwo hnodup hone hscans
  have hunambiguous : ¬Path.Ambiguous (cleanPaths s lx w.tree r.files) := fun hclash =>
    absurd (List.mem_filter.mp hclash.1).1 (by decide)
  exact ⟨htwo, hnodup, hone, scans, w₁, fields, hscans, hread,
    (hclear hunambiguous).1.trans hblocks, hblocks⟩

/-- Standard input and a file under its name tokenize, and one entry is printed for the two. -/
theorem file_named_like_standard_input_is_merged :
    let s : Surroundings := ⟨none, none, 1, .file "a".toUTF8⟩
    let settings : Settings := ⟨false, ⟨.text, none⟩, ⟨["if"], ["<"]⟩⟩
    let r : ScanRequest := ⟨["-", "<stdin>"], some 1, .none⟩
    let w : World := ⟨(FileTree.empty ["d"]).put ["d", "<stdin>"] (.file "if".toUTF8), #[]⟩
    2 ≤ r.files.length ∧ r.files.Nodup ∧ (r.files.filter Path.isStandardInput).length ≤ 1 ∧
      ∃ scans w₁ fields, (r.scans s settings).run w = .ok scans w₁ ∧
        Json.read? (renderJson scans) = some (.object fields) ∧ fields.length = 1 ∧
        (blocks scans).length = 2 ∧ (Summary.ofScans scans).succeeded = 2 := by
  intro s settings r w
  obtain ⟨scans, w₁, hscans, hlength, hentries, hblocks, hsummary⟩ : ∃ scans w₁,
      (r.scans s settings).run w = .ok scans w₁ ∧ scans.length = 2 ∧
        (byName scans).length = 1 ∧ (blocks scans).length = 2 ∧
        (Summary.ofScans scans).succeeded = 2 :=
    ⟨_, _, rfl, rfl, by decide +kernel, by decide +kernel, by decide +kernel⟩
  refine ⟨by decide, by decide, by decide +kernel, scans, w₁, _, hscans,
    read?_renderJson_several (by omega), ?_, hblocks, hsummary⟩
  rw [List.length_map, hentries]

end Lexis
