import RoomAudio.Proofs.Search.Subsequence

/-!
# Names that begin with the query

A name that begins with the only word of a query gets a higher score than any other name that is
not shorter. Its characters are side by side, so that each of them ends a longer run than it can
elsewhere. A boundary in front of every single character does not make up for that: only the
second character can gain by standing apart, and by less than the beginning of the name is worth.

## Main definitions

* `Search.spread_le` — what the characters behind the first one add, compared with what they add
  when they are side by side.
* `Search.wordScore_lt` — the two names compared.
* `Search.beginning_outranks` — the scores of a query compared.
-/

namespace RoomAudio

namespace Search

open Text (words lowerChars)

variable {a b word : List Char} {i j k start stop run : Nat} {found : List Nat}

/-! ## Side by side -/

/-- The indices of a word with which a text begins. -/
theorem occurrences?_append (word l : List Char) (i : Nat) :
    occurrences? word (word ++ l) i =
      some (List.range' i word.length, ⟨l, i + word.length⟩) := by
  induction word generalizing i with
  | nil => simp [occurrences?]
  | cons c word ih =>
    rw [List.cons_append, occurrences?, if_pos rfl, ih]
    simp [List.range'_succ, Nat.add_comm, Nat.add_left_comm]

/-! ## What characters add -/

/-- What the boundary in front of a character adds, if there is one. -/
def boundaryShare (name : List Char) (i : Nat) : Int :=
  if isBoundary name i then boundaryBonus else 0

theorem boundaryShare_bounds (name : List Char) (i : Nat) :
    0 ≤ boundaryShare name i ∧ boundaryShare name i ≤ boundaryBonus := by
  unfold boundaryShare boundaryBonus
  split <;> omega

theorem boundaryShare_zero (name : List Char) : boundaryShare name 0 = boundaryBonus := rfl

/-- Whether a word begins depends on the character in front alone. -/
theorem boundaryShare_congr (same : b[j]? = a[i]?) :
    boundaryShare b (j + 1) = boundaryShare a (i + 1) := by
  rw [boundaryShare, boundaryShare, isBoundary, isBoundary, same]

/-- The first character of a word ends no run. -/
theorem spread_first (name : List Char) (i : Nat) (found : List Nat) :
    spread name none (i :: found) =
      runBonus + boundaryShare name i + spread name (some (i, 1)) found := by
  simp [spread, boundaryShare]

/-- A neighbour makes the run longer. -/
theorem spread_next (name : List Char) (i run : Nat) (found : List Nat) :
    spread name (some (i, run)) ((i + 1) :: found) =
      runBonus * (run + 1) + boundaryShare name (i + 1) +
        spread name (some (i + 1, run + 1)) found := by
  simp [spread, boundaryShare]

/-- A gap ends the run and adds nothing. -/
theorem spread_apart_le (apart : k ≠ i + 1) (name : List Char) (run : Nat) (found : List Nat) :
    spread name (some (i, run)) (k :: found) ≤
      runBonus + boundaryShare name k + spread name (some (k, 1)) found := by
  simp only [spread, if_neg apart, boundaryShare]
  omega

/-- The characters that follow, where they begin with the one behind the index `i` in `a`. In `b`
the run so far is no longer. Every character that stands apart loses the run, at least six for
each character of it, and wins a boundary at most. -/
theorem spread_le (spelled : Spelled b stop start word found)
    (beside : word <+: a.drop (i + 1)) (behind : j < start) (same : b[j]? = a[i]?)
    (short : run ≤ i + 1) :
    spread b (some (j, run)) found ≤
      spread a (some (i, i + 1)) (List.range' (i + 1) word.length) + if i = 0 then 4 else 0 := by
  induction spelled generalizing i j run with
  | nil reached =>
    simp only [spread, List.length_nil, List.range'_zero]
    split <;> omega
  | @cons start k c word found reached there rest ih =>
    obtain ⟨tail, eq⟩ := beside
    have here : a[i + 1]? = some c := by rw [← List.head?_drop, ← eq]; rfl
    have beside' : word <+: a.drop (i + 1 + 1) := ⟨tail, by rw [← List.tail_drop, ← eq]; rfl⟩
    have later (run : Nat) (short : run ≤ i + 1 + 1) :
        spread b (some (k, run)) found ≤
          spread a (some (i + 1, i + 1 + 1)) (List.range' (i + 1 + 1) word.length) := by
      simpa using ih beside' (Nat.lt_succ_self k) (there.trans here.symm) short
    rw [List.length_cons, List.range'_succ, spread_next]
    by_cases next : k = j + 1
    · subst next
      have rest_le := later (run + 1) (by omega)
      rw [spread_next, boundaryShare_congr same]
      unfold runBonus
      split <;> omega
    · have rest_le := later 1 (by omega)
      have apart := spread_apart_le next b run found
      have lost := (boundaryShare_bounds a (i + 1)).1
      have won := (boundaryShare_bounds b k).2
      -- The run that is lost is worth more than a boundary unless it is one character long.
      simp only [runBonus, boundaryBonus] at apart won ⊢
      split <;> omega

/-! ## Scores of a word -/

theorem wordScore_cons (name word : List Char) (i : Nat) (found : List Nat) :
    wordScore name word (i :: found) =
      spread name none (i :: found) + (if word.isPrefixOf name then startBonus else 0) +
        max (earlyBonus - i) 0 := rfl

/-- A word that the name begins with is worth more than one that stands elsewhere. -/
theorem wordScore_lt (begins : word <+: a) (elsewhere : ¬ word <+: b)
    (spelled : Spelled b stop start word found) :
    wordScore b word found < wordScore a word (List.range' 0 word.length) := by
  cases spelled with
  | nil => simp at elsewhere
  | @cons _ k c word found _ there rest =>
    obtain ⟨tail, rfl⟩ := begins
    have others := spread_le (a := c :: word ++ tail) (i := 0) rest (by simp)
      (Nat.lt_succ_self k) there (Nat.le_refl 1)
    have won := (boundaryShare_bounds b k).2
    rw [List.length_cons, List.range'_succ, wordScore_cons, wordScore_cons, spread_first,
      spread_first, boundaryShare_zero, if_neg (by simpa using elsewhere), if_pos (by simp)]
    simp only [if_pos, Nat.zero_add, boundaryBonus, startBonus, earlyBonus] at others won ⊢
    omega

/-! ## Scores of a query -/

/-- The score for a query of one word. -/
theorem score_of_single {query : String} (single : words query = [word]) (name : String) :
    score name query =
      (occurrences? (lowerChars word) (lowerChars name.toList) 0).map fun x =>
        wordScore (lowerChars name.toList) (lowerChars word) x.1 -
          ((lowerChars name.toList).length / 8 : Nat) := by
  have whole (r : Remainder) : allOccurrences? [lowerChars word] r =
      (occurrences? (lowerChars word) r.chars r.index).map fun x => [x.1] := by
    rw [allOccurrences?_cons]
    cases occurrences? (lowerChars word) r.chars r.index <;> rfl
  simp only [score, single, List.map_cons, List.map_nil, List.isEmpty_cons, Bool.false_eq_true,
    if_false, whole, Option.map_map]
  congr 1
  funext x
  simp [wordsScore]

/-- A name that begins with the only word of a query fits it, and better than every other name
that is not shorter. -/
theorem beginning_outranks {query : String} {word : List Char} (single : words query = [word])
    {a b : String} (begins : lowerChars word <+: lowerChars a.toList)
    (elsewhere : ¬ lowerChars word <+: lowerChars b.toList)
    (shorter : (lowerChars a.toList).length ≤ (lowerChars b.toList).length) :
    ∃ m, score a query = some m ∧ ∀ n, score b query = some n → n < m := by
  have first : ∃ rest, occurrences? (lowerChars word) (lowerChars a.toList) 0 =
      some (List.range' 0 (lowerChars word).length, rest) := by
    obtain ⟨tail, eq⟩ := begins
    exact ⟨_, eq ▸ occurrences?_append _ _ _⟩
  obtain ⟨rest, first⟩ := first
  refine ⟨_, by rw [score_of_single single, first, Option.map_some], fun n scored => ?_⟩
  rw [score_of_single single] at scored
  obtain ⟨x, found, rfl⟩ := Option.map_eq_some_iff.mp scored
  obtain ⟨spelled, -⟩ := spelled_of_occurrences? (lowerChars b.toList) (i := 0) found
  have less := wordScore_lt begins elsewhere spelled
  have taken := Nat.div_le_div_right (c := 8) shorter
  dsimp only
  omega

/-- A boundary in front of every character is not enough. -/
theorem beginning_outranks_hyphens :
    ∃ m, score "Chill Vibes" "chill" = some m ∧
      score "C-H-I-L-L of Coffeehouse" "chill" = some 97 ∧ 97 < m := by
  have single : words "chill" = ["chill".toList] := by decide +kernel
  have hyphens : score "C-H-I-L-L of Coffeehouse" "chill" = some 97 := by decide +kernel
  obtain ⟨m, scored, less⟩ := beginning_outranks single (a := "Chill Vibes")
    (b := "C-H-I-L-L of Coffeehouse") (by decide +kernel) (by decide +kernel) (by decide +kernel)
  exact ⟨m, scored, hyphens, less 97 hyphens⟩

end Search

end RoomAudio
