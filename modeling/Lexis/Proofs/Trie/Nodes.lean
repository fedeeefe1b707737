import Lexis.Proofs.WordLists
import Mathlib.Data.List.Infix

/-!
  Lexis.Proofs.Trie.Nodes

  The nodes of a prefix tree are the beginnings of its words. A tree grows by fresh children and by
  marks, so what both keep holds of every built tree (`build_induction`). Kept are that each node is
  led to from the root (`Led`), and that the counter of words counts the marks (`CountsMarks`).
  Together with the shape of a tree this makes the walks from the root a numbering of the
  beginnings, which further words only continue.
-/

namespace Lexis

namespace Trie

variable {t t' : Trie} {node n m : NodeId} {c : Char} {p cs : List Char} {index : Nat}
  {ws : List String}

/-! ## Every node is led to -/

/-- Some text leads to every node. -/
def Led (t : Trie) : Prop := ∀ n, n < t.nodeCount → ∃ cs, t.walkFrom? root cs = some n

theorem led_empty : Led empty := by
  intro n hn
  obtain rfl : n = root := Nat.lt_one_iff.mp hn
  exact ⟨[], rfl⟩

theorem Led.addChild (h : Led t) (ht : IsTree t) (hp : t.walkFrom? root p = some node)
    (hc : t.step? node c = none) : Led (t.addChild node c) := by
  intro n hn
  rw [nodeCount_addChild] at hn
  rcases Nat.lt_succ_iff_lt_or_eq.mp hn with hold | rfl
  · obtain ⟨cs, hcs⟩ := h n hold
    -- The one text that leads elsewhere now led nowhere before.
    have hne : cs ≠ p ++ [c] := by
      rintro rfl
      simp [walkFrom?_concat, hp, hc] at hcs
    exact ⟨cs, by rw [ht.walk_addChild hp hc, if_neg hne, hcs]⟩
  · exact ⟨p ++ [c], by rw [ht.walk_addChild hp hc, if_pos rfl]⟩

theorem Led.mark (h : Led t) (node : NodeId) : Led (t.mark node) := by
  intro n hn
  rw [nodeCount_mark] at hn
  obtain ⟨cs, hcs⟩ := h n hn
  exact ⟨cs, by rw [walk_mark, hcs]⟩

theorem led_of_build (h : build ws = .ok t) : Led t :=
  build_induction (fun ht hp hc h => h.addChild ht hp hc) (fun _ _ h => h.mark _) led_empty h

/-- Every node but the root is a child, and of one parent by one character. -/
theorem Led.existsUnique_parent (h : Led t) (ht : IsTree t) (hm : m < t.nodeCount)
    (hne : m ≠ root) : ∃! e : NodeId × Char, t.step? e.1 e.2 = some m := by
  obtain ⟨cs, hcs⟩ := h m hm
  cases cs using List.reverseRecOn with
  | nil => exact absurd (Option.some.inj hcs).symm hne
  | append_singleton cs c _ =>
    rw [walkFrom?_concat, Option.bind_eq_some_iff] at hcs
    obtain ⟨k, -, hk⟩ := hcs
    refine ⟨(k, c), hk, ?_⟩
    rintro ⟨k', c'⟩ hk'
    obtain ⟨rfl, rfl⟩ := ht.parent_unique hk' hk
    rfl

/-! ## Marks -/

/-- The nodes at which a word ends. -/
def marked (t : Trie) : Finset NodeId := (Finset.range t.nodeCount).filter (t.isTerminal · = true)

theorem mem_marked_iff : n ∈ t.marked ↔ t.isTerminal n = true := by
  rw [marked, Finset.mem_filter, Finset.mem_range, and_iff_right_iff_imp]
  intro hn
  by_contra hle
  rw [isTerminal_of_nodeCount_le (Nat.le_of_not_lt hle)] at hn
  cases hn

/-- The counter of words is the number of marks. -/
def CountsMarks (t : Trie) : Prop := t.wordCount = t.marked.card

theorem CountsMarks.addChild (h : CountsMarks t) (hn : node < t.nodeCount) (c : Char) :
    CountsMarks (t.addChild node c) := by
  have hmarked : (t.addChild node c).marked = t.marked := by
    ext k
    rw [mem_marked_iff, mem_marked_iff, isTerminal_addChild hn]
  rw [CountsMarks, hmarked]
  exact h

theorem CountsMarks.mark (h : CountsMarks t) (hn : node < t.nodeCount) :
    CountsMarks (t.mark node) := by
  have hmarked : (t.mark node).marked = Insert.insert node t.marked := by
    ext k
    rw [mem_marked_iff, isTerminal_mark hn, Finset.mem_insert, mem_marked_iff, Bool.or_eq_true,
      decide_eq_true_eq]
  rw [CountsMarks, hmarked, wordCount_mark, h]
  split_ifs with hterm
  · rw [Finset.insert_eq_of_mem (mem_marked_iff.mpr hterm)]
  · rw [Finset.card_insert_of_notMem (mt mem_marked_iff.mp hterm)]

theorem countsMarks_of_build (h : build ws = .ok t) : CountsMarks t :=
  build_induction (fun ht hp _ h => h.addChild (ht.walk_lt hp) _)
    (fun ht hp h => h.mark (ht.walk_lt hp)) rfl h

/-! ## Further words -/

theorem insertAll_append (h : t.insertAll index ws = .ok t') (more : List String) :
    t.insertAll index (ws ++ more) = t'.insertAll (index + ws.length) more := by
  induction ws generalizing t index with
  | nil =>
    obtain rfl : t = t' := by simpa [insertAll] using h
    rfl
  | cons w ws ih =>
    rw [insertAll] at h
    rw [List.cons_append, insertAll]
    split at h
    · cases h
    · rename_i hw
      rw [if_neg hw, ih h, List.length_cons, Nat.add_assoc, Nat.add_comm 1]

theorem walk_insertAll (ht : IsTree t) (hok : t.insertAll index ws = .ok t')
    (hcs : t.walkFrom? root cs = some n) : t'.walkFrom? root cs = some n := by
  induction ws generalizing t index with
  | nil =>
    obtain rfl : t = t' := by simpa [insertAll] using hok
    exact hcs
  | cons w ws ih =>
    rw [insertAll] at hok
    split at hok
    · cases hok
    · have hextends := ht.insert_extends w
      exact ih hextends.isTree hok (hextends.persists hcs)

/-- A text that leads to a node leads to the same node when more words are added. -/
theorem walk?_build_append {more : List String} {s : String} (ht : IsTree t)
    (hok : build ws = .ok t) (hmore : build (ws ++ more) = .ok t') (hs : t.walk? s = some n) :
    t'.walk? s = some n := by
  rw [build, insertAll_append hok] at hmore
  exact walk_insertAll ht hmore hs

/-! ## Beginnings -/

/-- The beginnings of words, the empty one included. -/
def beginnings (ws : List String) : Finset String :=
  Insert.insert "" (ws.flatMap fun w => w.toList.inits.map String.ofList).toFinset

theorem mem_beginnings_iff {s : String} :
    s ∈ beginnings ws ↔ s = "" ∨ ∃ w ∈ ws, s.toList <+: w.toList := by
  rw [beginnings, Finset.mem_insert, List.mem_toFinset, List.mem_flatMap]
  refine or_congr_right (exists_congr fun w => and_congr_right fun _ => ?_)
  rw [List.mem_map]
  constructor
  · rintro ⟨cs, hcs, rfl⟩
    rwa [String.toList_ofList, ← List.mem_inits]
  · intro h
    exact ⟨s.toList, (List.mem_inits _ _).mpr h, String.ofList_toList⟩

namespace Recognizes

theorem walk?_isSome_iff (h : Recognizes t ws) (s : String) :
    (t.walk? s).isSome ↔ s ∈ beginnings ws := by
  rw [walk?, h.reaches, mem_beginnings_iff, String.toList_eq_nil_iff]

/-- Every node has one text that leads to it. -/
theorem existsUnique_walk (h : Recognizes t ws) (hled : Led t) (hn : n < t.nodeCount) :
    ∃! s, t.walk? s = some n := by
  obtain ⟨cs, hcs⟩ := hled n hn
  have hwalk : t.walk? (String.ofList cs) = some n := by rwa [walk?, String.toList_ofList]
  refine ⟨String.ofList cs, hwalk, fun s hs => ?_⟩
  exact String.toList_inj.mp (by rw [h.isTree.walk_injective hs hcs, String.toList_ofList])

/-- There are as many nodes as beginnings. -/
theorem card_beginnings (h : Recognizes t ws) (hled : Led t) :
    (beginnings ws).card = t.nodeCount := by
  have hsome : ∀ s ∈ beginnings ws, (t.walk? s).isSome := fun s hs =>
    (h.walk?_isSome_iff s).mpr hs
  rw [← Finset.card_range t.nodeCount]
  refine Finset.card_bij (fun s hs => (t.walk? s).get (hsome s hs)) ?_ ?_ ?_
  · intro s hs
    exact Finset.mem_range.mpr (h.isTree.walk_lt (Option.some_get (hsome s hs)).symm)
  · intro s hs s' hs' heq
    have hs' : t.walk? s' = some ((t.walk? s).get (hsome s hs)) := by
      rw [heq, Option.some_get]
    exact String.toList_inj.mp
      (h.isTree.walk_injective (Option.some_get (hsome s hs)).symm hs')
  · intro n hn
    obtain ⟨s, hs, -⟩ := h.existsUnique_walk hled (Finset.mem_range.mp hn)
    have hmem : s ∈ beginnings ws := (h.walk?_isSome_iff s).mp (by rw [hs]; rfl)
    exact ⟨s, hmem, Option.get_of_eq_some _ hs⟩

/-- From every node but a lone root, some text leads to a node at which a word ends. -/
theorem exists_end_below (h : Recognizes t ws) (hled : Led t) (hn : n < t.nodeCount)
    (halone : n = root → ∃ c, (t.step? root c).isSome) :
    ∃ cs m, t.walkFrom? n cs = some m ∧ t.isTerminal m = true := by
  obtain ⟨cs, hcs⟩ := hled n hn
  by_cases hne : cs = []
  · subst hne
    obtain rfl : root = n := Option.some.inj hcs
    -- A root with a child leads to the words of that child.
    obtain ⟨c, hc⟩ := halone rfl
    obtain ⟨k, hk⟩ := Option.isSome_iff_exists.mp hc
    have hwalk : t.walkFrom? root [c] = some k := by simpa [walkFrom?] using hk
    obtain ⟨es, m, hm, hterm⟩ := h.exists_completion hwalk (by simp)
    exact ⟨[c] ++ es, m, hm, hterm⟩
  · obtain ⟨es, m, hm, hterm⟩ := h.exists_completion hcs hne
    rw [walkFrom?_append, hcs] at hm
    exact ⟨es, m, hm, hterm⟩

/-- The edges of a tree carry the characters of its words. -/
theorem exists_step_iff (h : Recognizes t ws) (hled : Led t) (c : Char) :
    (∃ n, n < t.nodeCount ∧ (t.step? n c).isSome) ↔ ∃ w ∈ ws, c ∈ w.toList := by
  constructor
  · rintro ⟨n, hn, hc⟩
    obtain ⟨cs, hcs⟩ := hled n hn
    obtain ⟨w, hw, hbegins⟩ := (h.step?_isSome_iff hcs c).mp hc
    exact ⟨w, hw, hbegins.subset (by simp)⟩
  · rintro ⟨w, hw, hc⟩
    obtain ⟨as, bs, hsplit⟩ := List.append_of_mem hc
    have hbegins : as ++ [c] <+: w.toList := ⟨bs, by simp [hsplit]⟩
    -- The part of the word before the character leads to the node with the edge.
    have hsome : (t.walkFrom? root as).isSome :=
      (h.reaches as).mpr (Or.inr ⟨w, hw, (List.prefix_append as [c]).trans hbegins⟩)
    obtain ⟨n, hn⟩ := Option.isSome_iff_exists.mp hsome
    exact ⟨n, h.isTree.walk_lt hn, (h.step?_isSome_iff hn c).mpr ⟨w, hw, hbegins⟩⟩

end Recognizes

end Trie

open Trie

/-- A list of words without an empty one has a tree, whose nodes can be numbered in 32 bits.
    Children have distinct characters and come after their parents, and every node but the root is
    the child of one node by one character. Texts lead from the root to nodes one to one, and those
    that do are the beginnings of words, so there are as many nodes as beginnings. Below every node,
    unless it is a root alone, a word ends; the counter of words is the number of nodes at which
    one does. And no further word moves a node. -/
theorem nodes_number_beginnings {ws : List String} (hne : "" ∉ ws)
    (hsize : (ws.flatMap String.toList).length < UInt32.size) :
    ∃ t, build ws = .ok t ∧ t.nodeCount ≤ UInt32.size ∧
      (∀ n x, t.nodes.get? n = some x → (x.children.map Prod.fst).Nodup ∧
        ∀ e ∈ x.children, n < e.2 ∧ e.2 < t.nodeCount) ∧
      (∀ m, m < t.nodeCount → m ≠ root → ∃! e : NodeId × Char,
        ∃ x, t.nodes.get? e.1 = some x ∧ (e.2, m) ∈ x.children) ∧
      ((∀ s, (t.walk? s).isSome ↔ s ∈ beginnings ws) ∧
        (∀ s n, t.walk? s = some n → n < t.nodeCount) ∧
        (∀ n, n < t.nodeCount → ∃! s, t.walk? s = some n) ∧
        t.nodeCount = (beginnings ws).card) ∧
      (∀ n, n < t.nodeCount → (n = root → ∃ c, (t.step? root c).isSome) →
        ∃ cs m, t.walkFrom? n cs = some m ∧ t.isTerminal m = true) ∧
      t.wordCount = ((Finset.range t.nodeCount).filter (t.isTerminal · = true)).card ∧
      ∀ more, "" ∉ more → ∃ t', build (ws ++ more) = .ok t' ∧
        ∀ s n, t.walk? s = some n → t'.walk? s = some n := by
  obtain ⟨t, hok, hrec⟩ := exists_tree hne
  have hled := led_of_build hok
  have hkeys := distinctKeys_of_build hok
  have hcount := nodeCount_le_of_build hok
  refine ⟨t, hok, by omega, ?_, ?_, ⟨hrec.walk?_isSome_iff, fun s n => hrec.isTree.walk_lt,
    fun n hn => hrec.existsUnique_walk hled hn, (hrec.card_beginnings hled).symm⟩,
    fun n hn => hrec.exists_end_below hled hn, countsMarks_of_build hok, fun more hmore => ?_⟩
  · intro n x hx
    refine ⟨hkeys n x hx, fun e he => ?_⟩
    exact hrec.isTree.child_bounds ((hkeys.mem_children_iff hx).mp he)
  · intro m hm hroot
    have hedge : ∀ e : NodeId × Char,
        (∃ x, t.nodes.get? e.1 = some x ∧ (e.2, m) ∈ x.children) ↔ t.step? e.1 e.2 = some m := by
      intro e
      constructor
      · rintro ⟨x, hx, he⟩
        exact (hkeys.mem_children_iff hx).mp he
      · intro he
        have hlt := hrec.isTree.child_bounds he
        obtain ⟨x, hx⟩ := exists_node (hlt.1.trans hlt.2)
        exact ⟨x, hx, (hkeys.mem_children_iff hx).mpr he⟩
    simp only [hedge]
    exact hled.existsUnique_parent hrec.isTree hm hroot
  · have hall : "" ∉ ws ++ more := by simp [hne, hmore]
    obtain ⟨t', hok', -⟩ := exists_tree hall
    exact ⟨t', hok', fun s n hs => walk?_build_append hrec.isTree hok hok' hs⟩

/-- The words `if`, `in` and `int` share the node of `i`, so that their tree has five nodes with
    three ends; with `i` and `inn` after them, `int` leads where it led before. -/
theorem nodes_of_if_in_int :
    "" ∉ ["if", "in", "int", "in"] ∧
      (["if", "in", "int", "in"].flatMap String.toList).length < UInt32.size ∧
      ∃ t, build ["if", "in", "int", "in"] = .ok t ∧ t.nodeCount = 5 ∧ t.wordCount = 3 ∧
        t.walk? "int" = some 4 ∧
        ∃ t', build (["if", "in", "int", "in"] ++ ["i", "inn"]) = .ok t' ∧
          t'.walk? "int" = some 4 := by
  have hne : "" ∉ ["if", "in", "int", "in"] := by decide
  have hsize : (["if", "in", "int", "in"].flatMap String.toList).length < UInt32.size := by decide
  obtain ⟨t, hok, -, -, -, ⟨-, -, -, hnodes⟩, -, -, hmore⟩ := nodes_number_beginnings hne hsize
  have hwalk : (build ["if", "in", "int", "in"]).toOption.map
      (fun t => (t.walk? "int", t.wordCount)) = some (some 4, 3) := rfl
  rw [hok] at hwalk
  obtain ⟨hint, hwords⟩ := Prod.mk.inj (Option.some.inj hwalk)
  obtain ⟨t', hok', hstill⟩ := hmore ["i", "inn"] (by decide)
  refine ⟨hne, hsize, t, hok, ?_, hwords, hint, t', hok', hstill _ _ hint⟩
  rw [hnodes]
  decide

end Lexis
