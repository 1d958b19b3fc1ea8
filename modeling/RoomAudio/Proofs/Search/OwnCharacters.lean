import RoomAudio.Proofs.Search.Subsequence
import RoomAudio.Proofs.Text.Sigma

/-!
# Queries made of a name's own characters

Such a query should fit the name, and but for one letter it does: names and words are lower-cased
as a whole, and a capital sigma becomes another small letter at the end of a word than elsewhere.
So the beginning of a word that stops at a capital sigma is not found in that word.

## Main definitions

* `Search.own_characters_of_infix` — any part of a name is made of its own characters.
* `Search.own_characters_fit` — when a query like that fits.
* `Search.word_up_to_sigma_missed` — one that does not.
-/

namespace RoomAudio

namespace Search

open Text (words lowerChars lowerChar capitalSigma mergeSigma mergedLower)

variable {name query : String}

/-- A query fits if the characters of its words are found. -/
theorem isSome_score_of_needles (found : (needles query).Sublist (lowerChars name.toList)) :
    (score name query).isSome := by
  have fits := isSome_allOccurrences?_iff ((words query).map lowerChars)
    ⟨lowerChars name.toList, 0⟩
  unfold score
  dsimp only
  split
  · rfl
  · rw [Option.isSome_map, fits, ← List.flatMap_def]
    exact found

theorem own_characters_of_infix (part : query.toList <:+: name.toList) :
    (words query).flatten.Sublist name.toList :=
  (Text.flatten_wordsOf_sublist query.toList).trans part.sublist

/-- Reading all small sigmas as one, the characters of the query are found. -/
theorem merged_needles_sublist (own : (words query).flatten.Sublist name.toList) :
    ((needles query).map mergeSigma).Sublist ((lowerChars name.toList).map mergeSigma) := by
  have merged : (needles query).map mergeSigma = (words query).flatten.flatMap mergedLower := by
    rw [needles, List.map_flatMap, List.flatten_eq_flatMap, List.flatMap_assoc]
    exact List.flatMap_congr fun word _ => Text.map_mergeSigma_lowerAfter [] word
  rw [merged, lowerChars, Text.map_mergeSigma_lowerAfter]
  exact own.flatMap mergedLower

/-- A query without a capital sigma is found whatever the name is made of. -/
theorem needles_sublist_of_not_mem (own : (words query).flatten.Sublist name.toList)
    (plain : capitalSigma ∉ query.toList) :
    (needles query).Sublist (lowerChars name.toList) := by
  have absent : capitalSigma ∉ (words query).flatten := fun mem =>
    plain ((Text.flatten_wordsOf_sublist query.toList).subset mem)
  have split : needles query = (words query).flatten.flatMap lowerChar := by
    rw [needles, List.flatten_eq_flatMap, List.flatMap_assoc]
    refine List.flatMap_congr fun word mem => Text.lowerAfter_of_not_mem fun within => ?_
    exact absent (List.mem_flatten_of_mem mem within)
  rw [split]
  exact Text.sublist_lowerAfter_of_not_mem own absent

/-- Whole words are found, since they end where they end in the name. -/
theorem needles_sublist_of_words (whole : (words query).Sublist (words name)) :
    (needles query).Sublist (lowerChars name.toList) :=
  (whole.flatMap lowerChars).trans (Text.flatMap_wordsOf_sublist name.toList)

/-- The characters of a query that is made of a name's own characters occur in the name in the
same order, but for the two forms of the small sigma. So the query fits if it has no capital sigma,
and with capital sigmas it fits if it is made of whole words. -/
theorem own_characters_fit (own : (words query).flatten.Sublist name.toList) :
    ((needles query).map mergeSigma).Sublist ((lowerChars name.toList).map mergeSigma) ∧
    (capitalSigma ∉ query.toList → (score name query).isSome) ∧
    ((words query).Sublist (words name) → (score name query).isSome) := by
  refine ⟨merged_needles_sublist own, ?_, ?_⟩
  · intro plain
    apply isSome_score_of_needles
    exact needles_sublist_of_not_mem own plain
  · intro whole
    apply isSome_score_of_needles
    exact needles_sublist_of_words whole

/-- The end of a word is found next to a capital sigma, and a whole word with one is. -/
theorem own_characters_fit_music :
    (score "ΝΕΑ ΜΟΥΣΙΚΗ ΦΩΣ" "ΙΚΗ ΦΩ").isSome ∧ (score "ΝΕΑ ΜΟΥΣΙΚΗ ΦΩΣ" "ΝΕΑ ΦΩΣ").isSome := by
  have part : (words "ΙΚΗ ΦΩ").flatten.Sublist "ΝΕΑ ΜΟΥΣΙΚΗ ΦΩΣ".toList :=
    own_characters_of_infix (by decide +kernel)
  have apart : (words "ΝΕΑ ΦΩΣ").flatten.Sublist "ΝΕΑ ΜΟΥΣΙΚΗ ΦΩΣ".toList := by decide +kernel
  exact ⟨(own_characters_fit part).2.1 (by decide +kernel),
    (own_characters_fit apart).2.2 (by decide +kernel)⟩

/-- The beginning of a word up to a capital sigma is made of the name's own characters, and does
not fit. -/
theorem word_up_to_sigma_missed :
    (words "ΜΟΥΣ").flatten.Sublist "ΜΟΥΣΙΚΗ".toList ∧ score "ΜΟΥΣΙΚΗ" "ΜΟΥΣ" = none := by
  decide +kernel

end Search

end RoomAudio
