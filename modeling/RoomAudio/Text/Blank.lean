/-!
# Blank characters

The characters of the Unicode property `White_Space`, and what a text is without them: trimmed
at both ends, or cut into its words.

## Main definitions

* `Text.isBlank` — membership in `White_Space`.
* `Text.trim` — a text without the blank characters at its ends.
* `Text.splitOn` — the pieces of a list between the elements that satisfy a test.
* `Text.words` — the maximal runs of characters that are not blank.

A byte order mark and the zero-width characters are not blank.
-/

namespace RoomAudio.Text

/-- The characters with the property `White_Space`. -/
def isBlank (c : Char) : Bool :=
  let n := c.toNat
  (9 ≤ n && n ≤ 13) || n == 0x20 || n == 0x85 || n == 0xA0 || n == 0x1680 ||
  (0x2000 ≤ n && n ≤ 0x200A) || n == 0x2028 || n == 0x2029 || n == 0x202F || n == 0x205F ||
  n == 0x3000

def dropTailWhile {α : Type} (p : α → Bool) (l : List α) : List α :=
  (l.reverse.dropWhile p).reverse

/-- The characters of a text between its first and its last one that is not blank. -/
def trimChars (l : List Char) : List Char :=
  dropTailWhile isBlank (l.dropWhile isBlank)

def trim (s : String) : String :=
  String.ofList (trimChars s.toList)

def blank (s : String) : Bool :=
  s.toList.all isBlank

/-- Cuts a list at every element that satisfies `p`; there is always at least one piece. -/
def splitOn {α : Type} (p : α → Bool) : List α → List (List α)
  | [] => [[]]
  | a :: l =>
    if p a then [] :: splitOn p l
    else
      match splitOn p l with
      | [] => [[a]]
      | piece :: pieces => (a :: piece) :: pieces

/-- The maximal runs of characters that are not blank, in order. -/
def wordsOf (l : List Char) : List (List Char) :=
  (splitOn isBlank l).filter (!·.isEmpty)

def words (s : String) : List (List Char) :=
  wordsOf s.toList

/-! ## Small laws -/

@[simp] theorem wordsOf_nil : wordsOf [] = [] := rfl

theorem splitOn_ne_nil {α : Type} (p : α → Bool) (l : List α) : splitOn p l ≠ [] := by
  induction l with
  | nil => simp [splitOn]
  | cons a l ih =>
    rw [splitOn]
    split
    · simp
    · split <;> simp

end RoomAudio.Text
