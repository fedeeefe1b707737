import Lexis.Proofs.Trie.Nodes
import Lexis.Proofs.Vocabulary.Usable

/-!
  Lexis.Proofs.Vocabulary.Edges

  The characters of a lexicon. The class of a character is looked up in a list, and the scan follows
  it along the edges of two trees; that the two fit together is nobody's check. They do because both
  come from the same words: an edge carries a character of a word (`Trie.Recognizes.exists_step_iff`),
  and so does the list, each character in the order of its first occurrence
  (`pairwise_idxOf_eraseDups`).
-/

namespace Lexis

/-- What is left without repetitions is in the order of first occurrences. -/
theorem pairwise_idxOf_eraseDups {α : Type} [BEq α] [LawfulBEq α] (l : List α) :
    l.eraseDups.Pairwise fun a b => l.idxOf a < l.idxOf b := by
  -- An item at the end changes no first occurrence, so the induction is from there.
  induction l using List.reverseRecOn with
  | nil => simp
  | append_singleton l x ih =>
    have hold : l.eraseDups.Pairwise fun a b => (l ++ [x]).idxOf a < (l ++ [x]).idxOf b := by
      refine ih.imp_of_mem fun {a b} ha hb hab => ?_
      rwa [List.idxOf_append_of_mem (List.mem_eraseDups.mp ha),
        List.idxOf_append_of_mem (List.mem_eraseDups.mp hb)]
    rw [List.eraseDups_append]
    by_cases hx : x ∈ l
    · have hnone : [x].removeAll l = [] := by simp [List.removeAll, hx]
      rwa [hnone, List.eraseDups_nil, List.append_nil]
    · have hsome : [x].removeAll l = [x] := by simp [List.removeAll, hx]
      have hlast : ([x] : List α).eraseDups = [x] := by simp [List.eraseDups_cons]
      rw [hsome, hlast, List.pairwise_append]
      refine ⟨hold, List.pairwise_singleton _ _, fun a ha b hb => ?_⟩
      obtain rfl := List.mem_singleton.mp hb
      have ha := List.mem_eraseDups.mp ha
      rw [List.idxOf_append_of_mem ha, List.idxOf_append_of_notMem hx]
      exact Nat.lt_of_lt_of_le (List.idxOf_lt_length_of_mem ha) (Nat.le_add_right _ _)

namespace Trie

variable {t : Trie} {n : NodeId} {c : Char} {ws : List String}

/-- A character that leads on from some node is one of a word. -/
theorem Recognizes.exists_word_of_step (h : Recognizes t ws) (hled : Led t)
    (hc : (t.step? n c).isSome) : ∃ w ∈ ws, c ∈ w.toList := by
  refine (h.exists_step_iff hled c).mp ⟨n, ?_, hc⟩
  by_contra hn
  rw [step?_of_nodeCount_le (Nat.le_of_not_lt hn)] at hc
  cases hc

end Trie

/-- In the lexicon of a valid vocabulary the operator characters are those that lead on from some
    node of the tree of operators, and every character that leads on in the tree of keywords is a
    letter; no character does both. The list of operator characters holds each of them once, in the
    order of first occurrence in the operators written one after another. -/
theorem classes_agree_with_trees {v : Vocabulary} (hv : v.validate = .ok ()) :
    ∃ lx, Lexicon.compile v = .ok lx ∧
      (∀ c, lx.classify c = .operator ↔
        ∃ n, n < lx.operators.nodeCount ∧ (lx.operators.step? n c).isSome) ∧
      (∀ n c, (lx.keywords.step? n c).isSome → lx.classify c = .letter) ∧
      (∀ n m c, (lx.keywords.step? n c).isSome → lx.operators.step? m c = none) ∧
      lx.classifier.operatorChars.Nodup ∧
      (∀ c, c ∈ lx.classifier.operatorChars ↔ lx.classify c = .operator) ∧
      (∀ c, c ∈ lx.classifier.operatorChars ↔ c ∈ v.operators.flatMap String.toList) ∧
      lx.classifier.operatorChars.Pairwise fun a b =>
        (v.operators.flatMap String.toList).idxOf a < (v.operators.flatMap String.toList).idxOf b := by
  obtain ⟨lx, hlx, hr⟩ := Lexicon.compile_represents hv
  obtain ⟨hkeywords, hoperators⟩ := Lexicon.builds_of_compile hlx
  have hclass : ∀ c, lx.classify c = .operator ↔ ∃ o ∈ v.operators, c ∈ o.toList :=
    fun c => hr.classify_eq_operator_iff
  have hletter : ∀ n c, (lx.keywords.step? n c).isSome → lx.classify c = .letter := by
    intro n c hc
    obtain ⟨k, hk, hck⟩ := hr.keywords.exists_word_of_step (Trie.led_of_build hkeywords) hc
    exact Lexicon.classify_eq_letter_iff.mpr ((hr.usable.keywords k hk).2 c hck)
  have horder : lx.classifier.operatorChars.Pairwise fun a b =>
      (v.operators.flatMap String.toList).idxOf a <
        (v.operators.flatMap String.toList).idxOf b := by
    rw [hr.classifier]
    exact pairwise_idxOf_eraseDups _
  have hmem : ∀ c, c ∈ lx.classifier.operatorChars ↔ c ∈ v.operators.flatMap String.toList := by
    intro c
    rw [hr.classifier]
    exact List.mem_eraseDups
  refine ⟨lx, hlx, fun c => ?_, hletter, fun n m c hc => ?_, ?_, fun c => ?_, hmem, horder⟩
  · rw [hclass, hr.operators.exists_step_iff (Trie.led_of_build hoperators)]
  · -- Else the character would be a letter and an operator character.
    rw [← Option.not_isSome_iff_eq_none]
    intro hm
    have hword := hr.operators.exists_word_of_step (Trie.led_of_build hoperators) hm
    have hboth := (hletter n c hc).symm.trans ((hclass c).mpr hword)
    cases hboth
  · exact horder.imp fun hlt heq => absurd (heq ▸ hlt) (Nat.lt_irrefl _)
  · rw [hmem, hclass, List.mem_flatMap]

/-- Operators that share and repeat characters: each character is listed where it first occurs, and
    a keyword goes on with `i` where no operator does. -/
theorem classes_of_shared_operator_characters :
    Vocabulary.validate ⟨["in", "i"], ["==", "!=", "<<=", "="]⟩ = .ok () ∧
      ∃ lx, Lexicon.compile ⟨["in", "i"], ["==", "!=", "<<=", "="]⟩ = .ok lx ∧
        lx.classifier.operatorChars = ['=', '!', '<'] ∧
        lx.classify '<' = .operator ∧
        (∃ n, n < lx.operators.nodeCount ∧ (lx.operators.step? n '<').isSome) ∧
        ∀ m, lx.operators.step? m 'i' = none := by
  have hv : Vocabulary.validate ⟨["in", "i"], ["==", "!=", "<<=", "="]⟩ = .ok () := rfl
  obtain ⟨lx, hlx, hclass, -, hboth, -, hmem, -, -⟩ := classes_agree_with_trees hv
  have hlexicon : (Lexicon.compile ⟨["in", "i"], ["==", "!=", "<<=", "="]⟩).toOption.map
      (fun lx => (lx.classifier.operatorChars, (lx.keywords.step? 0 'i').isSome)) =
      some (['=', '!', '<'], true) := by decide +kernel
  rw [hlx] at hlexicon
  obtain ⟨hchars, hin⟩ := Prod.mk.inj (Option.some.inj hlexicon)
  have hlt : lx.classify '<' = .operator := (hmem '<').mp (by rw [hchars]; decide)
  exact ⟨hv, lx, hlx, hchars, hlt, (hclass '<').mp hlt, fun m => hboth 0 m 'i' hin⟩

end Lexis
