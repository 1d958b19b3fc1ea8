import RoomAudio.Proofs.Search
import RoomAudio.Proofs.Text.Case

/-!
# Candidates with the wanted name

Names that differ in case alone are the same to the scores, whatever letters they are made of. To
the choice they are the same if they differ in the case of ASCII letters. In ASCII a candidate with
the wanted name is therefore always picked. Elsewhere it has to compete with its score, and a
longer name in front of it may have the same one.

## Main definitions

* `Search.IsWanted` — the name of a candidate is the wanted one if case does not matter.
* `Search.wanted_picked_iff` — when the first one like that is picked.
* `Search.accented_name_passed_over` — one that is not.
-/

namespace RoomAudio

namespace Search

open Text (trim lower)

variable {α : Type} {label : α → String} {query : String} {a b : α} {before after : List α}

/-- The name of a candidate is the wanted one, in lower case. -/
def IsWanted (label : α → String) (query : String) (a : α) : Prop :=
  lower (trim (label a)) = lower (trim query)

instance : DecidablePred (IsWanted label query) := fun _ => inferInstanceAs (Decidable (_ = _))

/-- The case of ASCII letters is a case of letters. -/
theorem IsExact.isWanted (h : IsExact label query a) : IsWanted label query a :=
  Text.lower_eq_of_same h

/-- Where all characters are ASCII there are no other cases. -/
theorem IsWanted.isExact (h : IsWanted label query a) (ascii : Text.IsAscii (trim (label a)))
    (ascii' : Text.IsAscii (trim query)) : IsExact label query a :=
  Text.same_of_lower_eq ascii ascii' h

/-- The first candidate with the wanted name is picked if its case differs in ASCII letters alone,
and otherwise only if there is no candidate like that and its score is higher than those in front
of it and not lower than those behind. -/
theorem wanted_picked_iff (wanted : IsWanted label query a)
    (first : ∀ b ∈ before, ¬ IsWanted label query b) :
    (best? label (before ++ a :: after) query = some a ↔
      IsExact label query a ∨
        ((∀ b ∈ after, ¬ IsExact label query b) ∧
          (∀ b ∈ before, fit label (trim query) b < fit label (trim query) a) ∧
          ∀ b ∈ after, fit label (trim query) b ≤ fit label (trim query) a)) ∧
    (Text.IsAscii (trim (label a)) → Text.IsAscii (trim query) →
      best? label (before ++ a :: after) query = some a) := by
  have new : a ∉ before := fun mem => first a mem wanted
  have inexact (b : α) (mem : b ∈ before) : ¬ IsExact label query b :=
    fun exact => first b mem exact.isWanted
  have picked (exact : IsExact label query a) :
      best? label (before ++ a :: after) query = some a := by
    rw [best?_eq_some_iff, LeftmostMaximum.append_cons_iff new, ← prevails_iff]
    exact .exact exact inexact
  refine ⟨?_, fun ascii ascii' => picked (wanted.isExact ascii ascii')⟩
  by_cases exact : IsExact label query a
  · simp only [exact, picked exact, true_or]
  rw [best?_eq_some_iff, LeftmostMaximum.append_cons_iff new]
  constructor
  · rintro ⟨less, le⟩
    have behind (b : α) (mem : b ∈ after) := not_exact_of_rank_le exact (le b mem)
    exact .inr ⟨behind, fun b mem => (rank_lt_iff (inexact b mem) exact).mp (less b mem),
      fun b mem => (rank_le_iff (behind b mem) exact).mp (le b mem)⟩
  · rintro (same | ⟨behind, less, le⟩)
    · exact absurd same exact
    · exact ⟨fun b mem => (rank_lt_iff (inexact b mem) exact).mpr (less b mem),
        fun b mem => (rank_le_iff (behind b mem) exact).mpr (le b mem)⟩

/-- A name in capital letters is picked, although a longer one stands in front of it. -/
theorem wanted_picked_capitals : best? id ["Chill Mix 2", " CHILL", "chill"] "chill " =
    some " CHILL" := by
  have wanted : IsWanted id "chill " " CHILL" := by decide +kernel
  have first : ∀ b ∈ ["Chill Mix 2"], ¬ IsWanted id "chill " b := by decide +kernel
  exact (wanted_picked_iff wanted first).2 (by decide +kernel) (by decide +kernel)

/-- With an accent it is not: both names have the same score, and the longer one stands in
front. -/
theorem accented_name_passed_over :
    IsWanted id "été" "ÉTÉ" ∧ ¬ IsWanted id "été" "Été 24" ∧
      best? id ["Été 24", "ÉTÉ"] "été" ≠ some "ÉTÉ" := by
  decide +kernel

end Search

end RoomAudio
