import Lexis.Proofs.Trie.Enumeration
import Lexis.Proofs.Trie.Size
import Mathlib.Data.List.Dedup

/-!
  Lexis.Proofs.WordLists

  A word list seen through its prefix tree. A list with an empty word has no tree, and the error
  names the first such word. Any other list has one: it contains exactly the words of the list and
  leads along exactly their beginnings (`tree_recognizes_words`), and it lists each of them once, in
  ascending order, whatever the order in which its nodes keep their children
  (`words_listed_in_order`).
-/

namespace Lexis

namespace Trie

variable {t : Trie} {index : Nat} {ws : List String} {e : BuildError}

/-! ## Lists without a tree -/

theorem insertAll_eq_error_iff :
    t.insertAll index ws = .error e ↔ ∃ before after, ws = before ++ "" :: after ∧
      "" ∉ before ∧ e = .emptyWord (index + before.length) := by
  induction ws generalizing t index with
  | nil => simp [insertAll]
  | cons w ws ih =>
    rw [insertAll]
    by_cases hw : w = ""
    · subst hw
      constructor
      · intro h
        obtain rfl : BuildError.emptyWord index = e := by simpa using h
        exact ⟨[], ws, rfl, by simp, rfl⟩
      · rintro ⟨before, after, hsplit, hbefore, rfl⟩
        -- The first word is empty, so nothing comes before it.
        cases before with
        | nil => rfl
        | cons b before =>
          obtain ⟨rfl, -⟩ := List.cons.inj hsplit
          simp at hbefore
    · rw [if_neg (by simpa using hw), ih]
      constructor
      · rintro ⟨before, after, rfl, hbefore, rfl⟩
        refine ⟨w :: before, after, rfl, by simp [hbefore, Ne.symm hw], ?_⟩
        rw [List.length_cons, Nat.add_assoc, Nat.add_comm 1]
      · rintro ⟨before, after, hsplit, hbefore, rfl⟩
        cases before with
        | nil => exact absurd (List.cons.inj hsplit).1 hw
        | cons b before =>
          obtain ⟨rfl, rfl⟩ := List.cons.inj hsplit
          refine ⟨before, after, rfl, fun h => hbefore (List.mem_cons_of_mem _ h), ?_⟩
          rw [List.length_cons, Nat.add_assoc, Nat.add_comm 1]

theorem build_eq_error_iff :
    build ws = .error e ↔ ∃ before after, ws = before ++ "" :: after ∧
      "" ∉ before ∧ e = .emptyWord before.length := by
  rw [build, insertAll_eq_error_iff]
  simp only [Nat.zero_add]

theorem exists_tree (hne : "" ∉ ws) : ∃ t, build ws = .ok t ∧ Recognizes t ws := by
  refine build_recognizes fun w hw => ?_
  rw [Bool.eq_false_iff]
  intro h
  exact hne (String.isEmpty_iff.mp h ▸ hw)

/-! ## The words in order -/

theorem pairwise_le_mergeSort (l : List String) :
    (l.mergeSort fun a b => decide (a ≤ b)).Pairwise (· ≤ ·) := by
  have h : (l.mergeSort fun a b => decide (a ≤ b)).Pairwise fun a b => decide (a ≤ b) = true := by
    apply List.pairwise_mergeSort
    · intro a b c hab hbc
      exact decide_eq_true (String.le_trans (of_decide_eq_true hab) (of_decide_eq_true hbc))
    · intro a b
      simpa using String.le_total a b
  exact h.imp of_decide_eq_true

/-- Sorting forgets the order in which the words were met. -/
theorem mergeSort_eq_of_perm {as bs : List String} (h : as.Perm bs) :
    (as.mergeSort fun a b => decide (a ≤ b)) = bs.mergeSort fun a b => decide (a ≤ b) := by
  apply List.Perm.eq_of_pairwise (fun _ _ _ _ => String.le_antisymm)
    (pairwise_le_mergeSort as) (pairwise_le_mergeSort bs)
  exact (List.mergeSort_perm as _).trans (h.trans (List.mergeSort_perm bs _).symm)

/-- Different words in order are in strictly ascending order of their characters. -/
theorem pairwise_lt_mergeSort {l : List String} (h : l.Nodup) :
    (l.mergeSort fun a b => decide (a ≤ b)).Pairwise fun a b => a.toList < b.toList := by
  have hnodup : (l.mergeSort fun a b => decide (a ≤ b)).Nodup :=
    (List.mergeSort_perm l _).nodup_iff.mpr h
  refine ((pairwise_le_mergeSort l).and hnodup).imp ?_
  rintro a b ⟨hle, hne⟩
  rw [← String.lt_iff, ← String.not_le]
  exact fun hge => hne (String.le_antisymm hle hge)

end Trie

open Trie

/-- A list of words has a tree unless one of them is empty, and then the first empty word is
    reported. The tree contains the words of the list and no others, it leads along their beginnings
    and nowhere else, and its nodes can be numbered in 32 bits. -/
theorem tree_recognizes_words (ws : List String)
    (hsize : (ws.flatMap String.toList).length < UInt32.size) :
    (∀ e, build ws = .error e ↔ ∃ before after, ws = before ++ "" :: after ∧
      "" ∉ before ∧ e = .emptyWord before.length) ∧
    ((∃ e, build ws = .error e) ↔ "" ∈ ws) ∧
    ("" ∉ ws → ∃ t, build ws = .ok t ∧ t.nodeCount ≤ UInt32.size ∧
      t.isTerminal root = false ∧
      (∀ s, t.contains s = true ↔ s ∈ ws) ∧
      (∀ s, (t.walk? s).isSome ↔ s = "" ∨ ∃ w ∈ ws, s.toList <+: w.toList) ∧
      ∀ s c, ((t.walk? s).bind fun n => t.step? n c).isSome ↔
        ∃ w ∈ ws, (s.push c).toList <+: w.toList) := by
  refine ⟨fun e => build_eq_error_iff, ⟨?_, ?_⟩, fun hne => ?_⟩
  · rintro ⟨e, he⟩
    obtain ⟨before, after, rfl, -, -⟩ := build_eq_error_iff.mp he
    simp
  · intro hmem
    obtain ⟨before, after, hsplit, hbefore⟩ := List.eq_append_cons_of_mem hmem
    exact ⟨_, build_eq_error_iff.mpr ⟨before, after, hsplit, hbefore, rfl⟩⟩
  · obtain ⟨t, hok, hrec⟩ := exists_tree hne
    have hcount := nodeCount_le_of_build hok
    -- The root is the node of the empty text, which is no word.
    have hroot : ¬t.isTerminal root = true :=
      mt (hrec.isTerminal_iff (rfl : t.walkFrom? root [] = some root)).mp hne
    have hwalk : ∀ s, (t.walk? s).isSome ↔ s = "" ∨ ∃ w ∈ ws, s.toList <+: w.toList := by
      intro s
      rw [walk?, hrec.reaches, String.toList_eq_nil_iff]
    refine ⟨t, hok, by omega, by simpa using hroot, fun s => ?_, hwalk, fun s c => ?_⟩
    · have hcontains := hrec.any_isTerminal_iff s
      rw [← hcontains, contains, walk?]
      cases t.walkFrom? root s.toList <;> rfl
    · rw [← walk?_push, hwalk]
      simp

/-- The tree of `in`, `int`, `if` and `in` again leads along `i` and contains `int`; with an empty
    word in third place there is no tree. -/
theorem tree_of_in_and_int :
    (["in", "int", "if", "in"].flatMap String.toList).length < UInt32.size ∧
      (∃ t, build ["in", "int", "if", "in"] = .ok t ∧ t.contains "int" = true ∧
        (t.walk? "i").isSome ∧ t.contains "i" = false) ∧
      build ["in", "int", "", "if", ""] = .error (.emptyWord 2) := by
  have hsize : (["in", "int", "if", "in"].flatMap String.toList).length < UInt32.size := by decide
  have hsize' : (["in", "int", "", "if", ""].flatMap String.toList).length < UInt32.size := by decide
  obtain ⟨-, -, hok⟩ := tree_recognizes_words _ hsize
  obtain ⟨herror, -, -⟩ := tree_recognizes_words _ hsize'
  obtain ⟨t, ht, -, -, hcontains, hwalk, -⟩ := hok (by decide)
  refine ⟨hsize, ⟨t, ht, (hcontains _).mpr (by decide), (hwalk _).mpr ?_, ?_⟩, ?_⟩
  · exact Or.inr ⟨"in", by decide, by decide⟩
  · rw [← Bool.not_eq_true, hcontains]
    decide
  · exact (herror _).mpr ⟨["in", "int"], ["if", ""], rfl, by decide, rfl⟩

/-- The visits of a tree come to an end whatever the order of the children, and sorting what they
    meet gives the words of the list in strictly ascending order of code points, each of them
    once. The counter of the tree is their number. -/
theorem words_listed_in_order {ws : List String} (hne : "" ∉ ws) :
    ∃ t, build ws = .ok t ∧
      (∀ order : Arrangement, ∃ found, t.listing? order = some found ∧
        (found.mergeSort fun a b => decide (a ≤ b)) = t.words) ∧
      t.words = (ws.dedup.mergeSort fun a b => decide (a ≤ b)) ∧
      t.words.Pairwise (fun a b => a.toList < b.toList) ∧
      (∀ s, s ∈ t.words ↔ s ∈ ws) ∧
      t.words.length = t.wordCount := by
  obtain ⟨t, hok, hrec⟩ := exists_tree hne
  have hlisting : ∀ order : Arrangement, ∃ found, t.listing? order = some found ∧
      found.Perm ws.dedup := by
    intro order
    obtain ⟨found, hfound, hnodup, hmem⟩ :=
      exists_listing hrec.isTree (distinctKeys_of_build hok) order
    refine ⟨found, hfound, (List.perm_ext_iff_of_nodup hnodup ws.nodup_dedup).mpr fun s => ?_⟩
    rw [hmem, hrec.accepts, List.mem_dedup]
    simp only [String.toList_inj]
    exact ⟨fun ⟨w, hw, hs⟩ => hs ▸ hw, fun hs => ⟨s, hs, rfl⟩⟩
  have hwords : t.words = ws.dedup.mergeSort fun a b => decide (a ≤ b) := by
    obtain ⟨found, hfound, hperm⟩ := hlisting .kept
    rw [words, hfound]
    exact mergeSort_eq_of_perm hperm
  refine ⟨t, hok, fun order => ?_, hwords, ?_, fun s => ?_, ?_⟩
  · obtain ⟨found, hfound, hperm⟩ := hlisting order
    exact ⟨found, hfound, by rw [hwords, mergeSort_eq_of_perm hperm]⟩
  · rw [hwords]
    exact pairwise_lt_mergeSort ws.nodup_dedup
  · rw [hwords, List.mem_mergeSort, List.mem_dedup]
  · rw [hwords, List.length_mergeSort, wordCount_of_build hok, List.card_toFinset]

/-- With the children gone through backwards the visits of this tree happen to meet the words in
    order; as they are kept, they do not. Both give the same list. -/
theorem words_listed_backwards :
    "" ∉ ["b", "ab", "a", "b"] ∧
      ∃ t, build ["b", "ab", "a", "b"] = .ok t ∧ t.listing? .kept = some ["b", "a", "ab"] ∧
        t.listing? ⟨fun _ children => children.reverse, fun _ => List.reverse_perm⟩ =
          some ["a", "ab", "b"] ∧
        t.words = ["a", "ab", "b"] ∧ t.wordCount = 3 := by
  have hne : "" ∉ ["b", "ab", "a", "b"] := by decide
  obtain ⟨t, ht, hlisting, -, -, -, hcount⟩ := words_listed_in_order hne
  have hkept : (build ["b", "ab", "a", "b"]).toOption.map (·.listing? .kept) =
      some (some ["b", "a", "ab"]) := rfl
  have hback : (build ["b", "ab", "a", "b"]).toOption.map
      (·.listing? ⟨fun _ children => children.reverse, fun _ => List.reverse_perm⟩) =
      some (some ["a", "ab", "b"]) := rfl
  rw [ht] at hkept hback
  have hback' := Option.some.inj hback
  obtain ⟨found, hfound, hwords⟩ := hlisting _
  obtain rfl : ["a", "ab", "b"] = found := Option.some.inj (hback'.symm.trans hfound)
  rw [List.mergeSort_of_pairwise (by decide)] at hwords
  refine ⟨hne, t, ht, Option.some.inj hkept, hback', hwords.symm, ?_⟩
  rw [← hcount, ← hwords]
  rfl

end Lexis
