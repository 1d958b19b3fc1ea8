import RoomAudio.Proofs.Text.Blank
import RoomAudio.Search

/-!
# Queries as subsequences

A query fits a name if its characters occur in the name in the same order. The search takes each
of them as early as possible and never goes back, not even for another word. Nothing is lost by
that: what could follow a later occurrence can follow an earlier one as well.

## Main definitions

* `Search.needles` — the characters of a query that a name has to contain.
* `Search.Spelled` — characters that stand in a name one behind the other.
* `Search.Placed` — words that do, each behind the one before it.
* `Search.score_isSome_iff_sublist` — the queries that fit a name.
-/

namespace RoomAudio

namespace Search

open Text (words lowerChars)

/-- The characters of a query that a name has to contain, word by word in lower case. -/
def needles (query : String) : List Char := (words query).flatMap lowerChars

variable {name word : List Char} {i j start stop : Nat} {found : List Nat}

/-! ## Nothing is missed -/

/-- After the first word has been found as early as possible, what remains of the text is enough
for everything that can follow the word at all. -/
theorem append_sublist_iff (word more l : List Char) (i : Nat) :
    (word ++ more).Sublist l ↔
      ∃ x ∈ occurrences? word l i, more.Sublist x.2.chars := by
  fun_induction occurrences? word l i with
  | case1 l i => simp
  | case2 c word i => simp
  | case3 word a l i ih =>
    rw [List.cons_append, List.cons_sublist_cons, ih]
    cases occurrences? word l (i + 1) <;> simp
  | case4 c word a l i other ih =>
    -- Nothing that begins with another character can make use of this one.
    rw [← ih]
    grind

theorem allOccurrences?_cons (word : List Char) (words : List (List Char)) (r : Remainder) :
    allOccurrences? (word :: words) r = (occurrences? word r.chars r.index).bind fun x =>
      (allOccurrences? words x.2).map (x.1 :: ·) := by
  simp only [allOccurrences?, Option.bind_eq_bind, Option.pure_def, Option.map_eq_bind]
  rfl

/-- The characters are found exactly if they stand in the name in this order. -/
theorem isSome_allOccurrences?_iff (words : List (List Char)) (r : Remainder) :
    (allOccurrences? words r).isSome ↔ words.flatten.Sublist r.chars := by
  induction words generalizing r with
  | nil => simp [allOccurrences?]
  | cons word words ih =>
    rw [List.flatten_cons, append_sublist_iff word words.flatten r.chars r.index,
      allOccurrences?_cons]
    cases occurrences? word r.chars r.index with
    | none => simp
    | some x => simp [ih]

/-! ## Everything is in its place -/

/-- The characters of a word stand in `name` at the given indices, one behind the other, from
`start` on and in front of `stop`. -/
inductive Spelled (name : List Char) (stop : Nat) : Nat → List Char → List Nat → Prop
  | nil {start : Nat} (reached : start ≤ stop) : Spelled name stop start [] []
  | cons {start i : Nat} {c : Char} {word : List Char} {found : List Nat} (reached : start ≤ i)
      (there : name[i]? = some c) (rest : Spelled name stop (i + 1) word found) :
      Spelled name stop start (c :: word) (i :: found)

namespace Spelled

theorem earlier (h : Spelled name stop j word found) (le : i ≤ j) :
    Spelled name stop i word found := by
  cases h with
  | nil reached => exact .nil (by omega)
  | cons reached there rest => exact .cons (by omega) there rest

theorem append {word' : List Char} {found' : List Nat} (h : Spelled name i start word found)
    (next : Spelled name stop i word' found') :
    Spelled name stop start (word ++ word') (found ++ found') := by
  induction h with
  | nil reached => exact next.earlier reached
  | cons reached there _ ih => exact .cons reached there ih

theorem map_getElem? (h : Spelled name stop start word found) :
    found.map (name[·]?) = word.map some := by
  induction h with
  | nil reached => rfl
  | cons reached there _ ih => simp [there, ih]

theorem le_of_mem (h : Spelled name stop start word found) (mem : i ∈ found) : start ≤ i := by
  induction h with
  | nil reached => cases mem
  | cons reached there _ ih => grind

theorem ordered (h : Spelled name stop start word found) : found.Pairwise (· < ·) := by
  induction h with
  | nil reached => exact .nil
  | cons reached there rest ih => exact List.pairwise_cons.mpr ⟨fun _ => rest.le_of_mem, ih⟩

end Spelled

/-- What is found of a word spells it, and the search goes on behind it. -/
theorem spelled_of_occurrences? (name : List Char) {x : List Nat × Remainder}
    (h : occurrences? word (name.drop i) i = some x) :
    Spelled name x.2.index i word x.1 ∧ x.2.chars = name.drop x.2.index := by
  generalize eq : name.drop i = l at h
  fun_induction occurrences? word l i generalizing x with
  | case1 l i =>
    cases h
    exact ⟨.nil (Nat.le_refl i), eq.symm⟩
  | case2 c word i => cases h
  | case3 word a l i ih =>
    obtain ⟨y, found, rfl⟩ := Option.map_eq_some_iff.mp h
    have there : name[i]? = some a := by rw [← List.head?_drop, eq, List.head?_cons]
    have behind : name.drop (i + 1) = l := by rw [← List.tail_drop, eq, List.tail_cons]
    obtain ⟨rest, chars⟩ := ih behind found
    exact ⟨.cons (Nat.le_refl i) there rest, chars⟩
  | case4 c word a l i other ih =>
    have behind : name.drop (i + 1) = l := by rw [← List.tail_drop, eq, List.tail_cons]
    obtain ⟨rest, chars⟩ := ih behind h
    exact ⟨rest.earlier (Nat.le_succ i), chars⟩

/-- The characters of several words stand in `name` at the given indices, where no index serves
twice and no word begins in front of the end of the one before it. -/
structure Placed (name : List Char) (words : List (List Char)) (found : List (List Nat)) :
    Prop where
  lengths : found.map List.length = words.map List.length
  chars : found.flatten.map (name[·]?) = words.flatten.map some
  ordered : found.flatten.Pairwise (· < ·)

/-- What is found of several words spells them one behind the other. -/
theorem spelled_of_allOccurrences? (name : List Char) {words : List (List Char)} {r : Remainder}
    {found : List (List Nat)} (behind : r.chars = name.drop r.index)
    (h : allOccurrences? words r = some found) :
    found.map List.length = words.map List.length ∧
      ∃ stop, Spelled name stop r.index words.flatten found.flatten := by
  induction words generalizing r found with
  | nil =>
    cases h
    exact ⟨rfl, r.index, .nil (Nat.le_refl _)⟩
  | cons word words ih =>
    rw [allOccurrences?_cons, behind] at h
    obtain ⟨x, first, later⟩ := Option.bind_eq_some_iff.mp h
    obtain ⟨indices, rest, rfl⟩ := Option.map_eq_some_iff.mp later
    obtain ⟨spelled, behind'⟩ := spelled_of_occurrences? name first
    obtain ⟨lengths, stop, next⟩ := ih behind' rest
    have length : x.1.length = word.length := by
      simpa using congrArg List.length spelled.map_getElem?
    exact ⟨by simp [lengths, length], stop, spelled.append next⟩

theorem placed_of_allOccurrences? {words : List (List Char)} {found : List (List Nat)}
    (h : allOccurrences? words ⟨name, 0⟩ = some found) : Placed name words found := by
  obtain ⟨lengths, stop, spelled⟩ := spelled_of_allOccurrences? name (by simp) h
  exact ⟨lengths, spelled.map_getElem?, spelled.ordered⟩

/-! ## Queries -/

theorem words_eq_nil_iff (query : String) : words query = [] ↔ Text.blank query = true :=
  Text.wordsOf_eq_nil_iff query.toList

/-- A query fits a name exactly if it is blank or the characters of its words are a subsequence of
those of the name, all in lower case; and where the search finds them, every word stands behind
the one before it. -/
theorem score_isSome_iff_sublist (name query : String) :
    ((score name query).isSome ↔
      Text.blank query = true ∨ (needles query).Sublist (lowerChars name.toList)) ∧
    ∀ found ∈ allOccurrences? ((words query).map lowerChars) ⟨lowerChars name.toList, 0⟩,
      Placed (lowerChars name.toList) ((words query).map lowerChars) found := by
  refine ⟨?_, fun found h => placed_of_allOccurrences? h⟩
  rw [← words_eq_nil_iff, score]
  cases split : words query with
  | nil => simp
  | cons word rest =>
    have fits := isSome_allOccurrences?_iff ((words query).map lowerChars)
      ⟨lowerChars name.toList, 0⟩
    rw [needles, List.flatMap_def, ← fits]
    simp [split]

end Search

end RoomAudio
