import RoomAudio.Proofs.Text.Blank

/-!
# Pieces of texts

A text is cut at every occurrence of a character. The pieces are free of this character, and joined
with it they are the text again. So texts that are free of it are told apart after they were joined.

## Main definitions

* `Text.splitOn_eq_splitOnP` — cutting as in the library.
* `Text.splitOn_intercalate` — joined texts are cut where they were joined.
* `Text.exists_pieces` — the pieces of a text.
-/

namespace RoomAudio.Text

theorem splitOn_eq_splitOnP {α : Type} (p : α → Bool) (l : List α) :
    splitOn p l = l.splitOnP p := by
  induction l with
  | nil => rfl
  | cons a l ih =>
    rw [splitOn, List.splitOnP_cons_eq_if_modifyHead, ih]
    split
    · rfl
    · cases pieces : l.splitOnP p with
      | nil => exact absurd pieces (List.splitOnP_ne_nil p l)
      | cons piece pieces => rfl

theorem not_of_mem_splitOn {α : Type} {p : α → Bool} {l piece : List α}
    (h : piece ∈ splitOn p l) : ∀ a ∈ piece, p a = false := by
  induction l generalizing piece with
  | nil => simp_all [splitOn]
  | cons b l ih =>
    rw [splitOn] at h
    split at h
    · rcases List.mem_cons.mp h with rfl | h
      · simp
      · exact ih h
    · rename_i other
      split at h
      · rename_i none
        exact absurd none (splitOn_ne_nil p l)
      · rename_i first pieces split
        rw [split] at ih
        rcases List.mem_cons.mp h with rfl | h
        · intro a mem
          rcases List.mem_cons.mp mem with rfl | mem
          · simpa using other
          · exact ih (by simp) a mem
        · exact ih (by simp [h])

section Joined

variable {c : Char} {parts : List String}

/-- Joined texts are cut where they were joined. -/
theorem splitOn_intercalate (free : ∀ part ∈ parts, c ∉ part.toList) (filled : parts ≠ []) :
    splitOn (· == c) (String.intercalate (String.singleton c) parts).toList =
      parts.map String.toList := by
  rw [splitOn_eq_splitOnP, ← List.splitOn_eq_splitOnP, String.toList_intercalate,
    String.toList_singleton]
  refine List.splitOn_intercalate c (fun l mem => ?_) (by simpa using filled)
  obtain ⟨part, listed, rfl⟩ := List.mem_map.mp mem
  exact free part listed

/-- The pieces of a text. -/
theorem exists_pieces (c : Char) (s : String) : ∃ parts : List String, parts ≠ [] ∧
    String.intercalate (String.singleton c) parts = s ∧ ∀ part ∈ parts, c ∉ part.toList := by
  let pieces := splitOn (· == c) s.toList
  have texts : (pieces.map String.ofList).map String.toList = pieces := by simp
  refine ⟨pieces.map String.ofList, by simp [pieces, splitOn_ne_nil], ?_, ?_⟩
  · rw [← String.toList_inj, String.toList_intercalate, String.toList_singleton, texts]
    exact (congrArg _ (splitOn_eq_splitOnP _ _)).trans (List.intercalate_splitOn c)
  · intro part mem bad
    obtain ⟨piece, cut, rfl⟩ := List.mem_map.mp mem
    rw [String.toList_ofList] at bad
    simpa using not_of_mem_splitOn cut c bad

end Joined

end RoomAudio.Text
