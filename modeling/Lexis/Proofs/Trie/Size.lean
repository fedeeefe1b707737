import Lexis.Proofs.Trie.Recognition
import Mathlib.Data.Finset.Card

/-!
  Lexis.Proofs.Trie.Size

  What a prefix tree counts. A word adds at most one node for each of its characters, so the numbers
  of the nodes stay below the number of characters inserted (`nodeCount_le_of_build`). The counter of
  words grows with the first insertion of a word and with no other, so it is the number of distinct
  words (`wordCount_of_build`).
-/

namespace Lexis

namespace Trie

variable {t t' : Trie} {node : NodeId} {p cs : List Char} {index : Nat} {ws : List String}

/-! ## Nodes -/

theorem nodeCount_insertFrom_le (t : Trie) (node : NodeId) (cs : List Char) :
    (t.insertFrom node cs).nodeCount ≤ t.nodeCount + cs.length := by
  induction cs generalizing t node with
  | nil => simp [insertFrom]
  | cons c cs ih =>
    rw [insertFrom, List.length_cons]
    cases t.step? node c with
    | some child =>
      have h := ih t child
      simp only
      omega
    | none =>
      have h := ih (t.addChild node c) t.nodeCount
      rw [nodeCount_addChild] at h
      simp only
      omega

theorem nodeCount_insertAll_le (h : t.insertAll index ws = .ok t') :
    t'.nodeCount ≤ t.nodeCount + (ws.flatMap String.toList).length := by
  induction ws generalizing t index with
  | nil =>
    obtain rfl : t = t' := by simpa [insertAll] using h
    simp
  | cons w ws ih =>
    rw [insertAll] at h
    split at h
    · cases h
    · have hrest := ih h
      have hword := nodeCount_insertFrom_le t root w.toList
      rw [List.flatMap_cons, List.length_append]
      rw [insert] at hrest
      omega

theorem nodeCount_le_of_build (h : build ws = .ok t) :
    t.nodeCount ≤ (ws.flatMap String.toList).length + 1 := by
  have hle := nodeCount_insertAll_le h
  have hempty : empty.nodeCount = 1 := rfl
  omega

/-! ## Words -/

/-- The counter grows where a mark is new. -/
theorem wordCount_mark (t : Trie) (node : NodeId) :
    (t.mark node).wordCount = if t.isTerminal node then t.wordCount else t.wordCount + 1 := by
  unfold mark
  split <;> rfl

/-- An insertion counts its word unless the word was there already. -/
theorem IsTree.wordCount_insertFrom (ht : IsTree t) (hp : t.walkFrom? root p = some node) :
    (t.insertFrom node cs).wordCount =
      if t.accepts (p ++ cs) then t.wordCount else t.wordCount + 1 := by
  -- As for the walks, the invariant is that `node` is where the part inserted so far leads.
  induction cs generalizing t node p with
  | nil => rw [insertFrom, wordCount_mark, List.append_nil, accepts_of_walk hp]
  | cons c cs ih =>
    have hassoc : p ++ c :: cs = (p ++ [c]) ++ cs := by simp
    rw [insertFrom, hassoc]
    cases hc : t.step? node c with
    | some child => exact ih ht (by simp [walkFrom?_concat, hp, hc])
    | none =>
      have hwalk : (t.addChild node c).walkFrom? root (p ++ [c]) = some t.nodeCount := by
        rw [ht.walk_addChild hp hc, if_pos rfl]
      have hcount := ih (ht.addChild (ht.walk_lt hp) hc) hwalk
      rw [ht.accepts_addChild hp hc] at hcount
      exact hcount

theorem Recognizes.wordCount_insert (h : Recognizes t ws)
    (hcount : t.wordCount = ws.toFinset.card) (w : String) :
    (t.insert w).wordCount = (ws ++ [w]).toFinset.card := by
  have hinsert : (t.insert w).wordCount =
      if t.accepts ([] ++ w.toList) then t.wordCount else t.wordCount + 1 :=
    h.isTree.wordCount_insertFrom rfl
  have haccepts : t.accepts ([] ++ w.toList) = true ↔ w ∈ ws := by
    rw [List.nil_append, h.accepts]
    simp [String.toList_inj]
  have hset : (ws ++ [w]).toFinset = Insert.insert w ws.toFinset := by
    ext s
    simp
  rw [hinsert, hset]
  by_cases hw : w ∈ ws
  · rw [if_pos (haccepts.mpr hw), Finset.insert_eq_of_mem (List.mem_toFinset.mpr hw), hcount]
  · rw [if_neg (mt haccepts.mp hw), Finset.card_insert_of_notMem (mt List.mem_toFinset.mp hw), hcount]

theorem Recognizes.wordCount_insertAll {before : List String} (h : Recognizes t before)
    (hcount : t.wordCount = before.toFinset.card) (hok : t.insertAll index ws = .ok t') :
    t'.wordCount = (before ++ ws).toFinset.card := by
  induction ws generalizing t before index with
  | nil =>
    obtain rfl : t = t' := by simpa [Trie.insertAll] using hok
    rw [List.append_nil, hcount]
  | cons w ws ih =>
    rw [Trie.insertAll] at hok
    split at hok
    · cases hok
    · have hrest := ih (h.insert w) (h.wordCount_insert hcount w) hok
      rwa [List.append_assoc] at hrest

/-- The counter of a tree is the number of different words in its list. -/
theorem wordCount_of_build (h : build ws = .ok t) : t.wordCount = ws.toFinset.card :=
  empty_recognizes.wordCount_insertAll rfl h

end Trie

end Lexis
