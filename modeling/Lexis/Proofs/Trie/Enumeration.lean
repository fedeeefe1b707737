import Lexis.Proofs.Trie.Recognition
import Mathlib.Data.List.Nodup
import Mathlib.Data.List.Perm.Subperm

/-!
  Lexis.Proofs.Trie.Enumeration

  The words that a prefix tree lists are the words it accepts. A walk looks a character up among the
  children of a node, a visit puts all of them on the stack; the two see the same edges because no
  node has two children by one character (`DistinctKeys`). A node is put on the stack by the visit
  of its only parent, so it is visited once, and the stack is empty after at most as many visits as
  there are nodes (`Traversal.visitAll`), whatever the order of the children.

  Main statements: `exists_listing`, in any order, and `mem_words_iff`, for the tree of a word list.
-/

namespace Lexis

namespace Trie

variable {t t' : Trie} {node n m : NodeId} {c : Char} {p cs : List Char} {s : String}

/-- No node has two children by one character. -/
def DistinctKeys (t : Trie) : Prop :=
  ∀ k x, t.nodes.get? k = some x → (x.children.map Prod.fst).Nodup

/-! ## Every built tree has distinct keys -/

theorem distinctKeys_empty : DistinctKeys empty := by
  intro k x hx
  match k with
  | 0 =>
    obtain rfl : ⟨[], false⟩ = x := by
      simpa [empty, Arena.get?_push, Arena.empty, Arena.size] using hx
    simp
  | k + 1 => simp [empty, Arena.get?, Arena.push, Arena.empty] at hx

theorem DistinctKeys.addChild (h : DistinctKeys t) (hn : node < t.nodeCount)
    (hc : t.step? node c = none) : DistinctKeys (t.addChild node c) := by
  intro k x hx
  rw [get?_addChild hn] at hx
  split at hx
  · rename_i hk
    subst hk
    obtain ⟨y, hy, rfl⟩ := Option.map_eq_some_iff.mp hx
    -- The new key had no child before.
    have hfresh : c ∉ y.children.map Prod.fst := by
      intro hmem
      obtain ⟨⟨d, m⟩, hdm, rfl⟩ := List.mem_map.mp hmem
      have hlookup : y.children.lookup d = none := by simpa [step?, hy] using hc
      simpa using List.lookup_eq_none_iff.mp hlookup _ hdm
    simpa using ⟨by simpa using hfresh, h k y hy⟩
  · split at hx
    · obtain rfl : ⟨[], false⟩ = x := by simpa using hx
      simp
    · exact h k x hx

theorem DistinctKeys.mark (h : DistinctKeys t) (node : NodeId) : DistinctKeys (t.mark node) := by
  intro k x hx
  unfold Trie.mark at hx
  split at hx
  · exact h k x hx
  · rw [Arena.get?_modify] at hx
    split at hx
    · obtain ⟨y, hy, rfl⟩ := Option.map_eq_some_iff.mp hx
      exact h k y hy
    · exact h k x hx

theorem distinctKeys_of_build {ws : List String} (h : build ws = .ok t) : DistinctKeys t :=
  build_induction (fun ht hp hc h => h.addChild (ht.walk_lt hp) hc) (fun _ _ h => h.mark _)
    distinctKeys_empty h

/-! ## Enumeration -/

/-- The children of a node are the steps from it. -/
theorem DistinctKeys.mem_children_iff (h : DistinctKeys t) {x : Node}
    (hx : t.nodes.get? n = some x) : (c, m) ∈ x.children ↔ t.step? n c = some m := by
  have hstep : t.step? n c = x.children.lookup c := by simp [step?, hx]
  rw [hstep, List.lookup_eq_some_iff]
  constructor
  · intro hmem
    obtain ⟨as, bs, hsplit⟩ := List.append_of_mem hmem
    refine ⟨as, bs, hsplit, fun q hq => ?_⟩
    -- A pair before it has another key.
    have hnodup := h n x hx
    rw [hsplit, List.map_append, List.nodup_append] at hnodup
    have hne := hnodup.2.2 q.1 (List.mem_map_of_mem hq) c (by simp)
    simpa [bne_iff_ne] using hne.symm
  · rintro ⟨as, bs, hsplit, -⟩
    simp [hsplit]

/-! ## One visit -/

theorem walk?_push (t : Trie) (s : String) (c : Char) :
    t.walk? (s.push c) = (t.walk? s).bind fun n => t.step? n c := by
  rw [walk?, String.toList_push, walkFrom?_concat, walk?]

/-- The children of a node as a visit puts them on the stack, the last one on top. -/
def pushed (order : Arrangement) (n : NodeId) (path : String) (x : Node) : List (NodeId × String) :=
  ((order.arrange n x.children).map fun p => (p.2, path.push p.1)).reverse

/-- Whatever the order, the children that are put on the stack are the steps from the node. -/
theorem DistinctKeys.mem_pushed_iff (h : DistinctKeys t) {x : Node} (hx : t.nodes.get? n = some x)
    (order : Arrangement) (path : String) (e : NodeId × String) :
    e ∈ pushed order n path x ↔ ∃ c, t.step? n c = some e.1 ∧ e.2 = path.push c := by
  rw [pushed, List.mem_reverse, List.mem_map]
  constructor
  · rintro ⟨⟨c, m⟩, hp, rfl⟩
    exact ⟨c, (h.mem_children_iff hx).mp ((order.perm _ _).mem_iff.mp hp), rfl⟩
  · rintro ⟨c, hc, hpath⟩
    refine ⟨(c, e.1), ?_, by rw [← hpath]⟩
    exact (order.perm _ _).mem_iff.mpr ((h.mem_children_iff hx).mpr hc)

/-- No child is put on the stack twice. -/
theorem DistinctKeys.nodup_pushed (h : DistinctKeys t) (ht : IsTree t) {x : Node}
    (hx : t.nodes.get? n = some x) (order : Arrangement) (path : String) :
    ((pushed order n path x).map Prod.fst).Nodup := by
  have hchildren : (x.children.map Prod.snd).Nodup := by
    refine List.Nodup.map_on ?_ (h n x hx).of_map
    -- Two characters that lead to one node are the same.
    rintro ⟨c, m⟩ hc ⟨d, m'⟩ hd hm
    obtain rfl : m = m' := hm
    obtain ⟨-, rfl⟩ := ht.parent_unique ((h.mem_children_iff hx).mp hc)
      ((h.mem_children_iff hx).mp hd)
    rfl
  have hids : (pushed order n path x).map Prod.fst =
      ((order.arrange n x.children).map Prod.snd).reverse := by
    simp [pushed, List.map_reverse]
  rw [hids, List.nodup_reverse]
  exact (((order.perm n x.children).map Prod.snd).nodup_iff).mpr hchildren

/-! ## The traversal -/

/-- The traversal between two visits: `seen` are the nodes visited so far. What is seen or on the
    stack is the root, or was put there by the visit of its only parent. -/
structure Traversal (t : Trie) (seen : List NodeId) (stack : List (NodeId × String))
    (found : List String) : Prop where
  leads : ∀ e ∈ stack, t.walk? e.2 = some e.1
  nodup : (seen ++ stack.map Prod.fst).Nodup
  rooted : root ∈ seen ++ stack.map Prod.fst
  parent : ∀ m ∈ seen ++ stack.map Prod.fst, m = root ∨ ∃ k ∈ seen, ∃ c, t.step? k c = some m
  closed : ∀ k ∈ seen, ∀ {c m}, t.step? k c = some m → m ∈ seen ++ stack.map Prod.fst
  found : found.map t.walk? = (seen.filter t.isTerminal).map some

namespace Traversal

variable {seen : List NodeId} {stack : List (NodeId × String)} {found : List String}
  {path : String} {x : Node}

theorem start (t : Trie) : Traversal t [] [(root, "")] [] where
  leads := by simp [walk?, walkFrom?]
  nodup := by simp
  rooted := by simp
  parent := by simp
  closed := by simp
  found := rfl

theorem lt_nodeCount (h : Traversal t seen stack found) (ht : IsTree t)
    (hm : m ∈ seen ++ stack.map Prod.fst) : m < t.nodeCount := by
  rcases h.parent m hm with rfl | ⟨k, -, c, hc⟩
  · exact ht.root_lt
  · exact (ht.child_bounds hc).2

/-- There is never more to visit than there are nodes. -/
theorem length_le (h : Traversal t seen stack found) (ht : IsTree t) :
    seen.length + stack.length ≤ t.nodeCount := by
  have hsub : seen ++ stack.map Prod.fst ⊆ List.range t.nodeCount :=
    fun m hm => List.mem_range.mpr (h.lt_nodeCount ht hm)
  have hle := (List.Nodup.subperm h.nodup hsub).length_le
  simpa using hle

/-- The children of the node at hand are new to the traversal. -/
theorem fresh (h : Traversal t seen ((n, path) :: stack) found) (ht : IsTree t)
    (hc : t.step? n c = some m) : m ∉ seen ++ ((n, path) :: stack).map Prod.fst := by
  intro hm
  rcases h.parent m hm with rfl | ⟨k, hk, d, hd⟩
  · exact absurd (ht.child_bounds hc).1 (Nat.not_lt_zero _)
  · -- Only the node at hand could have put it there, and that one has not been visited.
    obtain ⟨rfl, -⟩ := ht.parent_unique hc hd
    exact (List.nodup_append.mp h.nodup).2.2 n hk n (by simp) rfl

/-- A visit moves the top of the stack to the nodes seen and puts its children in its place. -/
theorem visit (h : Traversal t seen ((n, path) :: stack) found) (ht : IsTree t)
    (hd : DistinctKeys t) (hx : t.nodes.get? n = some x) (order : Arrangement) :
    Traversal t (seen ++ [n]) (pushed order n path x ++ stack)
      (if x.terminal then found ++ [path] else found) := by
  have hpath : t.walk? path = some n := h.leads (n, path) (by simp)
  have hpushed := hd.mem_pushed_iff hx order path
  -- All that is seen or on the stack was so before, or is a child of the node.
  have hmem : ∀ m, m ∈ (seen ++ [n]) ++ (pushed order n path x ++ stack).map Prod.fst ↔
      m ∈ seen ++ ((n, path) :: stack).map Prod.fst ∨ ∃ c, t.step? n c = some m := by
    intro m
    have hchild : m ∈ (pushed order n path x).map Prod.fst ↔ ∃ c, t.step? n c = some m := by
      rw [List.mem_map]
      constructor
      · rintro ⟨e, he, rfl⟩
        obtain ⟨c, hc, -⟩ := (hpushed e).mp he
        exact ⟨c, hc⟩
      · rintro ⟨c, hc⟩
        exact ⟨(m, path.push c), (hpushed _).mpr ⟨c, hc, rfl⟩, rfl⟩
    simp only [List.map_append, List.map_cons, List.mem_append, List.mem_cons, List.not_mem_nil,
      or_false, hchild]
    tauto
  refine ⟨?_, ?_, ?_, ?_, ?_, ?_⟩
  · intro e he
    rcases List.mem_append.mp he with he | he
    · obtain ⟨c, hc, hp⟩ := (hpushed e).mp he
      rw [hp, walk?_push, hpath]
      exact hc
    · exact h.leads e (by simp [he])
  · have hperm : ((seen ++ [n]) ++ (pushed order n path x ++ stack).map Prod.fst).Perm
        ((pushed order n path x).map Prod.fst ++ (seen ++ ((n, path) :: stack).map Prod.fst)) := by
      rw [List.map_append]
      simpa using List.perm_append_comm_assoc (seen ++ [n]) _ (stack.map Prod.fst)
    rw [hperm.nodup_iff, List.nodup_append]
    refine ⟨hd.nodup_pushed ht hx order path, h.nodup, ?_⟩
    rintro a ha b hb rfl
    obtain ⟨e, he, rfl⟩ := List.mem_map.mp ha
    obtain ⟨c, hc, -⟩ := (hpushed e).mp he
    exact h.fresh ht hc hb
  · exact (hmem root).mpr (Or.inl h.rooted)
  · intro m hm
    rcases (hmem m).mp hm with hm | ⟨c, hc⟩
    · rcases h.parent m hm with hroot | ⟨k, hk, hc⟩
      · exact Or.inl hroot
      · exact Or.inr ⟨k, by simp [hk], hc⟩
    · exact Or.inr ⟨n, by simp, c, hc⟩
  · intro k hk c m hc
    refine (hmem m).mpr ?_
    rcases List.mem_append.mp hk with hk | hk
    · exact Or.inl (h.closed k hk hc)
    · obtain rfl : k = n := by simpa using hk
      exact Or.inr ⟨c, hc⟩
  · have hterm : t.isTerminal n = x.terminal := by simp [isTerminal, hx]
    rw [List.filter_append, List.map_append, ← h.found]
    cases hx' : x.terminal with
    | true => simp [hterm, hx', hpath]
    | false => simp [hterm, hx']

/-- With as many visits as there are nodes left, the stack runs empty. -/
theorem visitAll (h : Traversal t seen stack found) (ht : IsTree t) (hd : DistinctKeys t)
    (order : Arrangement) {visits : Nat} (hvisits : t.nodeCount ≤ seen.length + visits) :
    ∃ seen' found', t.visitAll order visits stack found = some found' ∧
      Traversal t seen' [] found' := by
  induction visits generalizing seen stack found with
  | zero =>
    cases stack with
    | nil => exact ⟨seen, found, rfl, h⟩
    | cons e stack =>
      have hle := h.length_le ht
      rw [List.length_cons] at hle
      omega
  | succ visits ih =>
    cases stack with
    | nil => exact ⟨seen, found, rfl, h⟩
    | cons e stack =>
      obtain ⟨n, path⟩ := e
      obtain ⟨x, hx⟩ := exists_node (h.lt_nodeCount ht (m := n) (by simp))
      rw [Trie.visitAll, hx]
      simp only [List.foldl_flip_cons_eq_append]
      refine ih (h.visit ht hd hx order) ?_
      rw [List.length_append, List.length_singleton]
      omega

/-! ## The end of the traversal -/

/-- Every node that a text leads to has been visited. -/
theorem mem_seen (h : Traversal t seen [] found) (hw : t.walkFrom? root cs = some m) :
    m ∈ seen := by
  induction cs using List.reverseRecOn generalizing m with
  | nil =>
    obtain rfl : root = m := by simpa [walkFrom?] using hw
    simpa using h.rooted
  | append_singleton cs c ih =>
    rw [walkFrom?_concat, Option.bind_eq_some_iff] at hw
    obtain ⟨k, hk, hc⟩ := hw
    simpa using h.closed k (ih hk) hc

theorem mem_found_iff (h : Traversal t seen [] found) (ht : IsTree t) :
    s ∈ found ↔ t.accepts s.toList = true := by
  -- The nodes of the words found are the terminal nodes visited.
  have hwalk : ∀ m, some m ∈ found.map t.walk? ↔ m ∈ seen ∧ t.isTerminal m = true := by
    intro m
    simp [h.found]
  constructor
  · intro hs
    obtain ⟨m, hm, hms⟩ : ∃ m ∈ seen.filter t.isTerminal, some m = t.walk? s := by
      simpa [h.found] using List.mem_map_of_mem (f := t.walk?) hs
    rw [accepts_of_walk hms.symm]
    exact (List.mem_filter.mp hm).2
  · intro hs
    cases hw : t.walkFrom? root s.toList with
    | none => simp [accepts, hw] at hs
    | some m =>
      rw [accepts_of_walk hw] at hs
      obtain ⟨s', hs', hm⟩ := List.mem_map.mp ((hwalk m).mpr ⟨h.mem_seen hw, hs⟩)
      obtain rfl : s' = s := String.toList_inj.mp (ht.walk_injective hm hw)
      exact hs'

theorem nodup_found (h : Traversal t seen [] found) : found.Nodup := by
  refine List.Nodup.of_map t.walk? ?_
  rw [h.found]
  refine List.Nodup.map (fun _ _ => Option.some.inj) ?_
  exact (by simpa using h.nodup : seen.Nodup).filter _

end Traversal

/-- In every order the visits come to an end and meet each word once. -/
theorem exists_listing (ht : IsTree t) (hd : DistinctKeys t) (order : Arrangement) :
    ∃ found, t.listing? order = some found ∧ found.Nodup ∧
      ∀ s, s ∈ found ↔ t.accepts s.toList = true := by
  have hvisits : t.nodeCount ≤ ([] : List NodeId).length + t.nodeCount := by simp
  obtain ⟨seen, found, hfound, h⟩ := (Traversal.start t).visitAll ht hd order hvisits
  exact ⟨found, hfound, h.nodup_found, fun s => h.mem_found_iff ht⟩

/-- The tree of a word list enumerates the members of the list. -/
theorem mem_words_iff {ws : List String} (h : build ws = .ok t)
    (hne : ∀ w ∈ ws, w.isEmpty = false) : s ∈ t.words ↔ s ∈ ws := by
  obtain ⟨t', hok, hrec⟩ := build_recognizes hne
  obtain rfl : t' = t := Except.ok.inj (hok.symm.trans h)
  obtain ⟨found, hfound, -, hmem⟩ :=
    exists_listing hrec.isTree (distinctKeys_of_build h) .kept
  rw [words, hfound, Option.getD_some, List.mem_mergeSort, hmem, hrec.accepts]
  simp only [String.toList_inj]
  exact ⟨fun ⟨w, hw, hs⟩ => hs ▸ hw, fun hs => ⟨s, hs, rfl⟩⟩

end Trie

end Lexis
