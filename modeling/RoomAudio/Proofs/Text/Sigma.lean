import Mathlib.Data.List.Flatten
import RoomAudio.Proofs.Text.Case
import RoomAudio.Text.Blank

/-!
# The capital sigma

It is the only letter that lower-casing does not treat by itself: at the end of a word it becomes
a final sigma. How far its neighbours matter, and what is left of a text whose other characters are
lower-cased one by one.

## Main definitions

* `Text.mergeSigma` — reads a final sigma as the other small one.
* `Text.map_mergeSigma_lowerAfter` — after that, no character depends on its neighbours.
* `Text.sublist_lowerAfter_of_not_mem` — neither do the characters that are no capital sigmas.
* `Text.flatMap_wordsOf_sublist` — neighbours beyond a blank do not matter.
-/

namespace RoomAudio.Text

variable {before l l' piece : List Char} {pieces : List (List Char)} {c b : Char}

/-- A final sigma as the small sigma of the other places. -/
def mergeSigma (c : Char) : Char := if c = 'ς' then 'σ' else c

def mergedLower (c : Char) : List Char :=
  if c = capitalSigma then ['σ'] else (lowerChar c).map mergeSigma

/-- Up to the form of sigmas lower case is found letter by letter. -/
theorem map_mergeSigma_lowerAfter (before l : List Char) :
    (lowerAfter before l).map mergeSigma = l.flatMap mergedLower := by
  induction l generalizing before with
  | nil => rfl
  | cons c l ih =>
    have first : (if c = capitalSigma then
        [if Case.startsCased before && !Case.startsCased l then 'ς' else 'σ']
        else lowerChar c).map mergeSigma = mergedLower c := by
      unfold mergedLower
      split
      · split <;> rfl
      · rfl
    rw [lowerAfter, List.map_append, first, ih, List.flatMap_cons]

/-! ## Characters that do not depend on their neighbours -/

theorem lowerAfter_of_not_mem (plain : capitalSigma ∉ l) :
    lowerAfter before l = l.flatMap lowerChar := by
  induction l generalizing before with
  | nil => rfl
  | cons c l ih =>
    have other : c ≠ capitalSigma := by grind
    rw [lowerAfter, if_neg other, ih (by grind), List.flatMap_cons]

/-- Characters that are no capital sigmas keep their lower-case forms among others. -/
theorem sublist_lowerAfter_of_not_mem (sub : l.Sublist l') (plain : capitalSigma ∉ l) :
    (l.flatMap lowerChar).Sublist (lowerAfter before l') := by
  induction sub generalizing before with
  | slnil => exact .slnil
  | cons c _ ih => exact (ih plain).trans (List.sublist_append_right _ _)
  | cons_cons c _ ih =>
    have other : c ≠ capitalSigma := by grind
    rw [List.flatMap_cons, lowerAfter, if_neg other]
    exact (ih (by grind)).append_left _

/-! ## Neighbours beyond a blank -/

def blankRuns : List (Nat × Nat) :=
  [(9, 13), (0x20, 0x20), (0x85, 0x85), (0xA0, 0xA0), (0x1680, 0x1680), (0x2000, 0x200A),
    (0x2028, 0x2029), (0x202F, 0x202F), (0x205F, 0x205F), (0x3000, 0x3000)]

theorem exists_blankRun (blank : isBlank b = true) :
    ∃ run ∈ blankRuns, run.1 ≤ b.toNat ∧ b.toNat ≤ run.2 := by
  simp only [isBlank, Bool.or_eq_true, Bool.and_eq_true, decide_eq_true_eq, beq_iff_eq] at blank
  simp only [blankRuns, List.mem_cons, List.not_mem_nil, or_false, exists_eq_or_imp,
    exists_eq_left]
  omega

/-- A blank neither has a case nor is it skipped when the neighbours of a letter are sought. -/
theorem startsCased_blank_cons (blank : isBlank b = true) (l : List Char) :
    Case.startsCased (b :: l) = false := by
  obtain ⟨run, mem, ge, le⟩ := exists_blankRun blank
  have apart : ∀ run ∈ blankRuns, ∀ other ∈ Case.casedRuns ++ Case.ignorableRuns,
      other.2 < run.1 ∨ run.2 < other.1 := by decide +kernel
  have uncased : Case.isCased b = false :=
    Case.inRuns_of_apart run.1 run.2
      (fun other h => apart run mem other (List.mem_append_left _ h)) ge le
  have kept : Case.isIgnorable b = false :=
    Case.inRuns_of_apart run.1 run.2
      (fun other h => apart run mem other (List.mem_append_right _ h)) ge le
  simp [startsCased_cons, uncased, kept]

/-- What stands behind a blank character does not matter for a sigma in front of it. -/
theorem startsCased_append_blank (blank : isBlank b = true) (l l' : List Char) :
    Case.startsCased (l ++ b :: l') = Case.startsCased l := by
  induction l with
  | nil => exact startsCased_blank_cons blank l'
  | cons c l ih => rw [List.cons_append, startsCased_cons, startsCased_cons, ih]

/-- What stands in front of a blank does not matter behind it. -/
theorem lowerAfter_append_blank (blank : isBlank b = true) (before before' l : List Char) :
    lowerAfter (before ++ b :: before') l = lowerAfter before l := by
  induction l generalizing before with
  | nil => rfl
  | cons c l ih =>
    rw [lowerAfter, lowerAfter, startsCased_append_blank blank, ← List.cons_append, ih]

/-! ## Words -/

theorem exists_splitOn_cons {α : Type} {p : α → Bool} {a : α} (h : p a = false) (l : List α) :
    ∃ piece pieces, splitOn p l = piece :: pieces ∧
      splitOn p (a :: l) = (a :: piece) :: pieces := by
  obtain ⟨piece, pieces, split⟩ := List.exists_cons_of_ne_nil (splitOn_ne_nil p l)
  exact ⟨piece, pieces, split, by rw [splitOn, h, split]; rfl⟩

/-- Cutting a list only takes elements away. -/
theorem flatten_splitOn_sublist {α : Type} (p : α → Bool) (l : List α) :
    (splitOn p l).flatten.Sublist l := by
  induction l with
  | nil => exact .slnil
  | cons a l ih =>
    cases h : p a with
    | true =>
      simp only [splitOn, h, if_true, List.flatten_cons, List.nil_append]
      exact ih.cons a
    | false =>
      obtain ⟨piece, pieces, split, joined⟩ := exists_splitOn_cons h l
      rw [split] at ih
      rw [joined]
      exact ih.cons_cons a

/-- The words of a text are made of its own characters. -/
theorem flatten_wordsOf_sublist (l : List Char) : (wordsOf l).flatten.Sublist l :=
  List.filter_sublist.flatten.trans (flatten_splitOn_sublist isBlank l)

theorem startsCased_piece (split : splitOn isBlank l = piece :: pieces) :
    Case.startsCased l = Case.startsCased piece := by
  induction l generalizing piece pieces with
  | nil => cases split; rfl
  | cons c l ih =>
    cases blank : isBlank c with
    | true =>
      simp only [splitOn, blank, if_true] at split
      cases split
      exact startsCased_blank_cons blank l
    | false =>
      obtain ⟨piece', pieces', split', joined⟩ := exists_splitOn_cons blank l
      rw [joined] at split
      cases split
      rw [startsCased_cons, startsCased_cons, ih split']

/-- A text in lower case holds the lower-case forms of its pieces between blanks. -/
theorem pieces_sublist_lowerAfter (split : splitOn isBlank l = piece :: pieces) :
    (lowerAfter before piece ++ pieces.flatMap lowerChars).Sublist (lowerAfter before l) := by
  induction l generalizing before piece pieces with
  | nil => cases split; exact .slnil
  | cons c l ih =>
    cases blank : isBlank c with
    | true =>
      obtain ⟨piece', pieces', split'⟩ := List.exists_cons_of_ne_nil (splitOn_ne_nil isBlank l)
      simp only [splitOn, blank, if_true, split'] at split
      cases split
      have rest : (lowerAfter (c :: before) piece' ++ pieces'.flatMap lowerChars).Sublist
          (lowerAfter (c :: before) l) := ih split'
      rw [← List.nil_append (c :: before), lowerAfter_append_blank blank] at rest
      exact rest.trans (List.sublist_append_right _ _)
    | false =>
      obtain ⟨piece', pieces', split', joined⟩ := exists_splitOn_cons blank l
      rw [joined] at split
      cases split
      rw [lowerAfter, lowerAfter, startsCased_piece split', List.append_assoc]
      exact (ih split').append_left _

/-- The words in lower case stand in the lower-case form of the whole text. -/
theorem flatMap_wordsOf_sublist (l : List Char) :
    ((wordsOf l).flatMap lowerChars).Sublist (lowerChars l) := by
  obtain ⟨piece, pieces, split⟩ := List.exists_cons_of_ne_nil (splitOn_ne_nil isBlank l)
  have all : ((splitOn isBlank l).flatMap lowerChars).Sublist (lowerChars l) := by
    rw [split, List.flatMap_cons]
    exact pieces_sublist_lowerAfter split
  exact (List.filter_sublist.flatMap lowerChars).trans all

end RoomAudio.Text
