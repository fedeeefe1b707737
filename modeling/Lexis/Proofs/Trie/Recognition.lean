import Lexis.Trie
import Mathlib.Data.List.Induction
import Mathlib.Data.List.Infix

/-!
  Lexis.Proofs.Trie.Recognition

  A prefix tree recognises exactly the words it was built from. The arena of a tree that grew by
  insertion has the shape of a tree (`IsTree`): children come after their parents, and no node has
  two parents. Walks from the root are therefore injective, which is what makes a mark on the last
  node of one word invisible to every other text.

  Main statements: `IsTree.insertFrom_extends`, what one insertion adds, and `build_recognizes`,
  what a whole word list makes.
-/

namespace Lexis

namespace Trie

variable {t t' : Trie} {node n m : NodeId} {c d : Char} {p cs ds : List Char}

/-- The text leads to a node at which a word ends. -/
def accepts (t : Trie) (cs : List Char) : Bool :=
  ((t.walkFrom? root cs).map t.isTerminal).getD false

theorem accepts_of_walk (h : t.walkFrom? root cs = some n) : t.accepts cs = t.isTerminal n := by
  simp [accepts, h]

/-! ## Single changes of the arena -/

@[simp] theorem nodeCount_addChild (t : Trie) (node : NodeId) (c : Char) :
    (t.addChild node c).nodeCount = t.nodeCount + 1 := by
  simp [addChild, nodeCount]

theorem step?_of_nodeCount_le (h : t.nodeCount ≤ n) : t.step? n c = none := by
  simp [step?, t.nodes.get?_eq_none h]

theorem isTerminal_of_nodeCount_le (h : t.nodeCount ≤ n) : t.isTerminal n = false := by
  simp [isTerminal, t.nodes.get?_eq_none h]

theorem exists_node (hn : n < t.nodeCount) : ∃ x, t.nodes.get? n = some x := by
  rw [← Option.isSome_iff_exists]
  simpa [Arena.get?, nodeCount, Arena.size] using hn

/-- The nodes after a child was added. -/
theorem get?_addChild (hn : node < t.nodeCount) (k : NodeId) :
    (t.addChild node c).nodes.get? k =
      if k = node then (t.nodes.get? k).map fun x =>
        { x with children := (c, t.nodeCount) :: x.children }
      else if k = t.nodeCount then some ⟨[], false⟩ else t.nodes.get? k := by
  simp only [addChild, Arena.get?_modify, Arena.get?_push]
  have hne : node ≠ t.nodes.size := Nat.ne_of_lt hn
  by_cases hk : k = node
  · subst hk
    simp [hne]
  · rw [if_neg hk, if_neg hk]
    rfl

/-- A fresh child is the only new edge. -/
theorem step?_addChild (hn : node < t.nodeCount) (k : NodeId) (d : Char) :
    (t.addChild node c).step? k d =
      if k = node ∧ d = c then some t.nodeCount else t.step? k d := by
  rw [step?, get?_addChild hn]
  by_cases hk : k = node
  · subst hk
    obtain ⟨x, hx⟩ := exists_node hn
    by_cases hd : d = c
    · subst hd
      simp [hx]
    · have hbeq : (d == c) = false := by simpa using hd
      simp [step?, hx, hd, List.lookup_cons, hbeq]
  · simp only [hk, false_and, if_false]
    by_cases hc : k = t.nodeCount
    · subst hc
      simp [step?_of_nodeCount_le]
    · simp [hc, step?]

/-- A fresh child ends no word. -/
theorem isTerminal_addChild (hn : node < t.nodeCount) (k : NodeId) :
    (t.addChild node c).isTerminal k = t.isTerminal k := by
  rw [isTerminal, get?_addChild hn]
  by_cases hk : k = node
  · subst hk
    cases h : t.nodes.get? k <;> simp [isTerminal, h]
  · by_cases hc : k = t.nodeCount
    · subst hc
      simp [hk, isTerminal_of_nodeCount_le]
    · simp [hk, hc, isTerminal]

@[simp] theorem nodeCount_mark (t : Trie) (node : NodeId) :
    (t.mark node).nodeCount = t.nodeCount := by
  unfold mark
  split <;> simp [nodeCount]

/-- A mark changes no edge. -/
@[simp] theorem step?_mark (t : Trie) (node k : NodeId) (d : Char) :
    (t.mark node).step? k d = t.step? k d := by
  unfold mark
  split
  · rfl
  · simp only [step?, Arena.get?_modify]
    by_cases hk : k = node
    · subst hk
      cases h : t.nodes.get? k <;> simp
    · simp [hk]

/-- A mark makes one node terminal. -/
theorem isTerminal_mark (hn : node < t.nodeCount) (k : NodeId) :
    (t.mark node).isTerminal k = (decide (k = node) || t.isTerminal k) := by
  unfold mark
  split
  · rename_i ht
    by_cases hk : k = node <;> simp [hk, ht]
  · simp only [isTerminal, Arena.get?_modify]
    by_cases hk : k = node
    · subst hk
      obtain ⟨x, hx⟩ := exists_node hn
      simp [hx]
    · simp [hk]

/-! ## The shape of a tree -/

/-- Children come after their parents, and no node is a child twice. -/
structure IsTree (t : Trie) : Prop where
  root_lt : root < t.nodeCount
  child_bounds : ∀ {k d m}, t.step? k d = some m → k < m ∧ m < t.nodeCount
  parent_unique : ∀ {k d k' d' m}, t.step? k d = some m → t.step? k' d' = some m → k = k' ∧ d = d'

theorem step?_empty (k : NodeId) (d : Char) : empty.step? k d = none := by
  match k with
  | 0 => rfl
  | k + 1 => exact step?_of_nodeCount_le (by simp [empty, nodeCount])

theorem isTree_empty : IsTree empty where
  root_lt := by decide
  child_bounds h := by simp [step?_empty] at h
  parent_unique h := by simp [step?_empty] at h

theorem IsTree.addChild (ht : IsTree t) (hn : node < t.nodeCount) (hc : t.step? node c = none) :
    IsTree (t.addChild node c) where
  root_lt := by
    rw [nodeCount_addChild]
    exact Nat.lt_succ_of_lt ht.root_lt
  child_bounds := by
    intro k d m h
    rw [step?_addChild hn] at h
    rw [nodeCount_addChild]
    split at h
    · rename_i hk
      obtain ⟨rfl, -⟩ := hk
      obtain rfl : t.nodeCount = m := by simpa using h
      exact ⟨hn, Nat.lt_succ_self _⟩
    · exact ⟨(ht.child_bounds h).1, Nat.lt_succ_of_lt (ht.child_bounds h).2⟩
  parent_unique := by
    intro k d k' d' m h h'
    rw [step?_addChild hn] at h h'
    -- The number of the fresh child was no child before.
    have hold : ∀ {k d}, t.step? k d = some m → m ≠ t.nodeCount :=
      fun h => Nat.ne_of_lt (ht.child_bounds h).2
    split at h <;> split at h'
    · rename_i hk hk'
      exact ⟨hk.1.trans hk'.1.symm, hk.2.trans hk'.2.symm⟩
    · exact absurd (by simpa using h.symm) (hold h')
    · exact absurd (by simpa using h'.symm) (hold h)
    · exact ht.parent_unique h h'

theorem IsTree.mark (ht : IsTree t) (node : NodeId) : IsTree (t.mark node) where
  root_lt := by simpa using ht.root_lt
  child_bounds h := by simpa using ht.child_bounds (by simpa using h)
  parent_unique h h' := ht.parent_unique (by simpa using h) (by simpa using h')

/-! ## Walks -/

theorem walkFrom?_append (t : Trie) (k : NodeId) (as bs : List Char) :
    t.walkFrom? k (as ++ bs) = (t.walkFrom? k as).bind fun n => t.walkFrom? n bs := by
  induction as generalizing k with
  | nil => rfl
  | cons a as ih =>
    simp only [List.cons_append, walkFrom?]
    cases t.step? k a with
    | none => rfl
    | some n => simpa using ih n

theorem walkFrom?_concat (t : Trie) (k : NodeId) (cs : List Char) (c : Char) :
    t.walkFrom? k (cs ++ [c]) = (t.walkFrom? k cs).bind fun n => t.step? n c := by
  rw [walkFrom?_append]
  congr 1
  funext n
  simp [walkFrom?]

/-- Every part of a walk from its beginning is a walk. -/
theorem walk_isSome_of_prefix (h : cs <+: ds) (hd : (t.walkFrom? root ds).isSome) :
    (t.walkFrom? root cs).isSome := by
  obtain ⟨es, rfl⟩ := h
  rw [walkFrom?_append] at hd
  cases hw : t.walkFrom? root cs with
  | none => simp [hw] at hd
  | some n => rfl

theorem IsTree.walk_lt (ht : IsTree t) (h : t.walkFrom? root cs = some n) : n < t.nodeCount := by
  induction cs using List.reverseRecOn generalizing n with
  | nil =>
    obtain rfl : root = n := by simpa [walkFrom?] using h
    exact ht.root_lt
  | append_singleton cs c _ =>
    rw [walkFrom?_concat, Option.bind_eq_some_iff] at h
    obtain ⟨k, -, hk⟩ := h
    exact (ht.child_bounds hk).2

/-- Two texts that lead to one node are the same text. -/
theorem IsTree.walk_injective (ht : IsTree t) (hc : t.walkFrom? root cs = some n)
    (hd : t.walkFrom? root ds = some n) : cs = ds := by
  -- The root is no child, so only the empty text leads there.
  have hroot : ∀ {k d}, t.step? k d ≠ some root :=
    fun h => absurd (ht.child_bounds h).1 (Nat.not_lt_zero _)
  induction cs using List.reverseRecOn generalizing ds n with
  | nil =>
    obtain rfl : root = n := by simpa [walkFrom?] using hc
    cases ds using List.reverseRecOn with
    | nil => rfl
    | append_singleton ds d =>
      rw [walkFrom?_concat, Option.bind_eq_some_iff] at hd
      obtain ⟨k, -, hk⟩ := hd
      exact absurd hk hroot
  | append_singleton cs c ih =>
    rw [walkFrom?_concat, Option.bind_eq_some_iff] at hc
    obtain ⟨k, hk, hkn⟩ := hc
    cases ds using List.reverseRecOn with
    | nil =>
      obtain rfl : root = n := by simpa [walkFrom?] using hd
      exact absurd hkn hroot
    | append_singleton ds d =>
      rw [walkFrom?_concat, Option.bind_eq_some_iff] at hd
      obtain ⟨k', hk', hkn'⟩ := hd
      -- Both texts end with the one edge that leads to the node.
      obtain ⟨rfl, rfl⟩ := ht.parent_unique hkn hkn'
      rw [ih hk hk']

/-- A fresh child makes one more text a walk. -/
theorem IsTree.walk_addChild (ht : IsTree t) (hp : t.walkFrom? root p = some node)
    (hc : t.step? node c = none) (ds : List Char) :
    (t.addChild node c).walkFrom? root ds =
      if ds = p ++ [c] then some t.nodeCount else t.walkFrom? root ds := by
  have hn : node < t.nodeCount := ht.walk_lt hp
  induction ds using List.reverseRecOn with
  | nil => simp [walkFrom?]
  | append_singleton ds d ih =>
    rw [walkFrom?_concat, ih, walkFrom?_concat]
    by_cases hds : ds = p ++ [c]
    · -- Nothing leads on from the fresh child, and nothing led to it before.
      subst hds
      have hfresh : (t.addChild node c).step? t.nodeCount d = none := by
        rw [step?_addChild hn, if_neg (fun h => Nat.ne_of_gt hn h.1)]
        exact step?_of_nodeCount_le (Nat.le_refl _)
      have hbefore : t.walkFrom? root (p ++ [c]) = none := by
        rw [walkFrom?_concat, hp]
        exact hc
      rw [if_pos rfl, if_neg (by simp)]
      simp [hfresh, hbefore]
    · rw [if_neg hds]
      cases hw : t.walkFrom? root ds with
      | none =>
        have hne : ds ++ [d] ≠ p ++ [c] := by
          intro h
          obtain ⟨rfl, -⟩ := List.append_inj' h rfl
          simp [hw] at hp
        simp [hne]
      | some k =>
        -- Only the text `p` stands at the node, so only it can take the new edge.
        have hiff : (k = node ∧ d = c) ↔ ds ++ [d] = p ++ [c] := by
          constructor
          · rintro ⟨rfl, rfl⟩
            rw [ht.walk_injective hw hp]
          · intro h
            obtain ⟨rfl, h'⟩ := List.append_inj' h rfl
            exact ⟨by simpa using hw.symm.trans hp, by simpa using h'⟩
        simp only [Option.bind_some, step?_addChild hn, hiff]

theorem walk_mark (t : Trie) (node : NodeId) (k : NodeId) (ds : List Char) :
    (t.mark node).walkFrom? k ds = t.walkFrom? k ds := by
  induction ds generalizing k with
  | nil => rfl
  | cons d ds ih => simp [walkFrom?, ih]

/-! ## Insertion -/

/-- What the insertion of `w` makes of a tree: no node moves, and the new texts are those on the
    way to `w`, of which only `w` itself is a word. -/
structure Extends (t t' : Trie) (w : List Char) : Prop where
  isTree : IsTree t'
  persists : ∀ {ds n}, t.walkFrom? root ds = some n → t'.walkFrom? root ds = some n
  reaches : ∀ ds, (t'.walkFrom? root ds).isSome ↔ (t.walkFrom? root ds).isSome ∨ ds <+: w
  accepts : ∀ ds, t'.accepts ds = true ↔ t.accepts ds = true ∨ ds = w

/-- A mark on the node of a text makes the text a word. -/
theorem IsTree.mark_extends (ht : IsTree t) (hp : t.walkFrom? root p = some node) :
    Extends t (t.mark node) p where
  isTree := ht.mark node
  persists h := by rwa [walk_mark]
  reaches ds := by
    rw [walk_mark]
    refine ⟨Or.inl, ?_⟩
    rintro (h | h)
    · exact h
    · exact walk_isSome_of_prefix h (by simp [hp])
  accepts ds := by
    simp only [Trie.accepts, walk_mark]
    cases hw : t.walkFrom? root ds with
    | none =>
      have hne : ds ≠ p := by
        rintro rfl
        simp [hw] at hp
      simp [hne]
    | some k =>
      -- No other text leads to the node, so no other text sees the mark.
      have hiff : k = node ↔ ds = p := by
        constructor
        · rintro rfl
          exact ht.walk_injective hw hp
        · rintro rfl
          simpa using hw.symm.trans hp
      simp [isTerminal_mark (ht.walk_lt hp), hiff, or_comm]

/-- A fresh child makes no text a word. -/
theorem IsTree.accepts_addChild (ht : IsTree t) (hp : t.walkFrom? root p = some node)
    (hc : t.step? node c = none) (ds : List Char) :
    (t.addChild node c).accepts ds = t.accepts ds := by
  simp only [Trie.accepts, ht.walk_addChild hp hc]
  split
  · rename_i hd
    subst hd
    -- The text of the fresh child was no walk before and is no word now.
    have hnone : t.walkFrom? root (p ++ [c]) = none := by simp [walkFrom?_concat, hp, hc]
    simp [hnone, isTerminal_addChild (ht.walk_lt hp), isTerminal_of_nodeCount_le]
  · cases t.walkFrom? root ds <;> simp [isTerminal_addChild (ht.walk_lt hp)]

/-- A fresh child before an insertion makes no difference to what the insertion adds. -/
theorem IsTree.addChild_extends (ht : IsTree t) (hp : t.walkFrom? root p = some node)
    (hc : t.step? node c = none) {t' : Trie} {w : List Char} (hw : p ++ [c] <+: w)
    (h : Extends (t.addChild node c) t' w) : Extends t t' w where
  isTree := h.isTree
  persists := by
    -- A text that led somewhere is not the one that the fresh child adds.
    intro ds n hd
    apply h.persists
    rw [ht.walk_addChild hp hc, if_neg, hd]
    rintro rfl
    simp [walkFrom?_concat, hp, hc] at hd
  reaches ds := by
    rw [h.reaches, ht.walk_addChild hp hc]
    split
    · rename_i hd
      subst hd
      simp [hw]
    · rfl
  accepts ds := by rw [h.accepts, ht.accepts_addChild hp hc]

/-- The whole of one insertion, by recursion on the text that is left to insert. -/
theorem IsTree.insertFrom_extends (ht : IsTree t) (hp : t.walkFrom? root p = some node) :
    Extends t (t.insertFrom node cs) (p ++ cs) := by
  -- The invariant is that `node` is where `p`, the part inserted so far, leads.
  induction cs generalizing t node p with
  | nil =>
    rw [insertFrom, List.append_nil]
    exact ht.mark_extends hp
  | cons c cs ih =>
    have hassoc : p ++ c :: cs = (p ++ [c]) ++ cs := by simp
    rw [insertFrom, hassoc]
    cases hc : t.step? node c with
    | some child => exact ih ht (by simp [walkFrom?_concat, hp, hc])
    | none =>
      have hn : node < t.nodeCount := ht.walk_lt hp
      have hwalk : (t.addChild node c).walkFrom? root (p ++ [c]) = some t.nodeCount := by
        rw [ht.walk_addChild hp hc, if_pos rfl]
      exact ht.addChild_extends hp hc (List.prefix_append _ _) (ih (ht.addChild hn hc) hwalk)

theorem IsTree.insert_extends (ht : IsTree t) (w : String) : Extends t (t.insert w) w.toList := by
  have h : Extends t (t.insertFrom root w.toList) ([] ++ w.toList) := ht.insertFrom_extends rfl
  simpa [insert] using h

/-! ## What every tree keeps -/

section Induction

variable {index : Nat} {ws : List String} {P : Trie → Prop}
  (hchild : ∀ {t : Trie} {p : List Char} {node : NodeId} {c : Char}, IsTree t →
    t.walkFrom? root p = some node → t.step? node c = none → P t → P (t.addChild node c))
  (hmark : ∀ {t : Trie} {p : List Char} {node : NodeId}, IsTree t →
    t.walkFrom? root p = some node → P t → P (t.mark node))

include hchild hmark

theorem insertFrom_induction (ht : IsTree t) (hp : t.walkFrom? root p = some node) (h : P t) :
    P (t.insertFrom node cs) := by
  -- As for the walks, the invariant is that `node` is where the part inserted so far leads.
  induction cs generalizing t node p with
  | nil => exact hmark ht hp h
  | cons c cs ih =>
    rw [insertFrom]
    cases hc : t.step? node c with
    | some child => exact ih ht (p := p ++ [c]) (by simp [walkFrom?_concat, hp, hc]) h
    | none =>
      have hwalk : (t.addChild node c).walkFrom? root (p ++ [c]) = some t.nodeCount := by
        rw [ht.walk_addChild hp hc, if_pos rfl]
      exact ih (ht.addChild (ht.walk_lt hp) hc) hwalk (hchild ht hp hc h)

theorem insertAll_induction (ht : IsTree t) (h : P t) (hok : t.insertAll index ws = .ok t') :
    P t' := by
  induction ws generalizing t index with
  | nil =>
    obtain rfl : t = t' := by simpa [insertAll] using hok
    exact h
  | cons w ws ih =>
    rw [insertAll] at hok
    split at hok
    · cases hok
    · have hinsert : P (t.insert w) := insertFrom_induction hchild hmark ht (p := []) rfl h
      exact ih (ht.insert_extends w).isTree hinsert hok

/-- What holds of the tree without words, and is kept by a fresh child and by a mark at the end of
    a walk, holds of every tree that is built. -/
theorem build_induction (hempty : P empty) (hok : build ws = .ok t) : P t :=
  insertAll_induction hchild hmark isTree_empty hempty hok

end Induction

/-! ## Word lists -/

/-- The tree walks along exactly the beginnings of the words and accepts exactly the words. -/
structure Recognizes (t : Trie) (ws : List String) : Prop where
  isTree : IsTree t
  reaches : ∀ cs, (t.walkFrom? root cs).isSome ↔ cs = [] ∨ ∃ w ∈ ws, cs <+: w.toList
  accepts : ∀ cs, t.accepts cs = true ↔ ∃ w ∈ ws, cs = w.toList

theorem empty_recognizes : Recognizes empty [] where
  isTree := isTree_empty
  reaches cs := by
    cases cs with
    | nil => simp [walkFrom?]
    | cons c cs => simp [walkFrom?, step?_empty]
  accepts cs := by
    cases cs with
    | nil => simp [accepts, walkFrom?]; rfl
    | cons c cs => simp [accepts, walkFrom?, step?_empty]

theorem Recognizes.insert {ws : List String} (h : Recognizes t ws) (w : String) :
    Recognizes (t.insert w) (ws ++ [w]) where
  isTree := (h.isTree.insert_extends w).isTree
  reaches cs := by
    rw [(h.isTree.insert_extends w).reaches, h.reaches]
    simp [or_and_right, exists_or, or_assoc]
  accepts cs := by
    rw [(h.isTree.insert_extends w).accepts, h.accepts]
    simp [or_and_right, exists_or]

theorem Recognizes.insertAll {before ws : List String} (h : Recognizes t before) (index : Nat)
    (hne : ∀ w ∈ ws, w.isEmpty = false) :
    ∃ t', t.insertAll index ws = .ok t' ∧ Recognizes t' (before ++ ws) := by
  -- The tree recognises the words that are already in; the index is only for messages.
  induction ws generalizing t before index with
  | nil => exact ⟨t, rfl, by simpa using h⟩
  | cons w ws ih =>
    have hw : w.isEmpty = false := hne w (by simp)
    have hws : ∀ x ∈ ws, x.isEmpty = false := fun x hx => hne x (by simp [hx])
    obtain ⟨t', hok, hrec⟩ := ih (h.insert w) (index + 1) hws
    refine ⟨t', ?_, by simpa using hrec⟩
    rw [Trie.insertAll, hw]
    exact hok

/-- A list without empty words has a tree, and the tree recognises the list. -/
theorem build_recognizes {ws : List String} (hne : ∀ w ∈ ws, w.isEmpty = false) :
    ∃ t, build ws = .ok t ∧ Recognizes t ws := by
  simpa [build] using empty_recognizes.insertAll 0 hne

namespace Recognizes

variable {ws : List String}

/-- From the node of a text, a character leads on exactly when some word goes on with it. -/
theorem step?_isSome_iff (h : Recognizes t ws) (hc : t.walkFrom? root cs = some n) (c : Char) :
    (t.step? n c).isSome ↔ ∃ w ∈ ws, cs ++ [c] <+: w.toList := by
  have hr := h.reaches (cs ++ [c])
  rw [walkFrom?_concat, hc] at hr
  simpa using hr

/-- The node of a text is terminal exactly when the text is a word. -/
theorem isTerminal_iff (h : Recognizes t ws) (hc : t.walkFrom? root cs = some n) :
    t.isTerminal n = true ↔ String.ofList cs ∈ ws := by
  rw [← accepts_of_walk hc, h.accepts]
  constructor
  · rintro ⟨w, hw, rfl⟩
    simpa using hw
  · intro hw
    exact ⟨_, hw, by simp⟩

/-- Walking the whole of a text and asking for the end of a word is a test for membership. -/
theorem any_isTerminal_iff (h : Recognizes t ws) (s : String) :
    (t.walkFrom? root s.toList).any t.isTerminal = true ↔ s ∈ ws := by
  cases hw : t.walkFrom? root s.toList with
  | some n => simpa using h.isTerminal_iff hw
  | none =>
    simp only [Option.any_none, Bool.false_eq_true, false_iff]
    intro hs
    have hsome := (h.reaches s.toList).mpr (Or.inr ⟨s, hs, List.prefix_refl _⟩)
    simp [hw] at hsome

/-- From every node but a lone root some word can be completed. -/
theorem exists_completion (h : Recognizes t ws) (hc : t.walkFrom? root cs = some n)
    (hne : cs ≠ []) : ∃ es m, t.walkFrom? root (cs ++ es) = some m ∧ t.isTerminal m = true := by
  have hr : cs = [] ∨ ∃ w ∈ ws, cs <+: w.toList := (h.reaches cs).mp (by simp [hc])
  obtain ⟨w, hw, es, hes⟩ := hr.resolve_left hne
  have hsome : (t.walkFrom? root (cs ++ es)).isSome :=
    (h.reaches _).mpr (Or.inr ⟨w, hw, by rw [hes]⟩)
  obtain ⟨m, hm⟩ := Option.isSome_iff_exists.mp hsome
  refine ⟨es, m, hm, (h.isTerminal_iff hm).mpr ?_⟩
  rw [hes]
  simpa using hw

end Recognizes

end Trie

end Lexis
