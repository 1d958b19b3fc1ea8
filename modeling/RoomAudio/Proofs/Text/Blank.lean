import Mathlib.Data.List.DropRight
import RoomAudio.Text.Blank

/-!
# Texts without blank ends

What trimming leaves: a text that is not blank keeps a character, and there is nothing left to
trim.

## Main definitions

* `Text.Trimmed` — a text with characters but without blank ends.
* `Text.trimmed_trim` — trimming leads there, unless the text is blank.
* `Text.Trimmed.intercalate` — joining such texts leads to another one.
-/

namespace RoomAudio.Text

variable {α : Type} {p : α → Bool}

theorem dropTailWhile_eq_rdropWhile (p : α → Bool) (l : List α) :
    dropTailWhile p l = l.rdropWhile p := rfl

/-- An element that does not satisfy `p` protects those in front of it. -/
theorem dropTailWhile_cons {a : α} (l : List α) (h : p a = false) :
    dropTailWhile p (a :: l) = a :: dropTailWhile p l := by
  simp only [dropTailWhile, List.reverse_cons, List.dropWhile_append]
  cases rest : l.reverse.dropWhile p with
  | nil => simp [h]
  | cons b rest => simp

/-- What is left at the front does not satisfy `p`. -/
theorem not_of_dropWhile_eq_cons {a : α} {l rest : List α} (h : l.dropWhile p = a :: rest) :
    p a = false := by
  have first := List.head?_dropWhile_not p l
  rwa [h] at first

theorem isBlank_of_isDigit {c : Char} (h : c.isDigit = true) : isBlank c = false := by
  have bounds : 48 ≤ c.toNat ∧ c.toNat ≤ 57 := by
    simpa [Char.isDigit, UInt32.le_iff_toNat_le] using h
  simp only [isBlank, Bool.or_eq_false_iff, Bool.and_eq_false_iff, decide_eq_false_iff_not,
    beq_eq_false_iff_ne]
  omega

/-- Nothing is left of a text exactly if it is blank. -/
theorem trimChars_eq_nil_iff (l : List Char) : trimChars l = [] ↔ l.all isBlank = true := by
  rw [List.all_eq_true, ← List.dropWhile_eq_nil_iff, trimChars]
  cases front : l.dropWhile isBlank with
  | nil => simp [dropTailWhile_eq_rdropWhile]
  | cons c rest => simp [dropTailWhile_cons rest (not_of_dropWhile_eq_cons front)]

theorem trimChars_trimChars (l : List Char) : trimChars (trimChars l) = trimChars l := by
  unfold trimChars
  cases front : l.dropWhile isBlank with
  | nil => rfl
  | cons c rest =>
    have first := not_of_dropWhile_eq_cons front
    have again : (c :: dropTailWhile isBlank rest).dropWhile isBlank =
        c :: dropTailWhile isBlank rest := List.dropWhile_cons_of_neg (by simp [first])
    rw [dropTailWhile_cons rest first, again, dropTailWhile_cons _ first]
    simp [dropTailWhile_eq_rdropWhile, List.rdropWhile_idempotent]

/-- The two ends of a list can be cut in any order. -/
theorem dropWhile_dropTailWhile (p : α → Bool) (l : List α) :
    (dropTailWhile p l).dropWhile p = dropTailWhile p (l.dropWhile p) := by
  simp only [dropTailWhile_eq_rdropWhile]
  induction l using List.reverseRecOn with
  | nil => rfl
  | append_singleton l a ih =>
    rw [List.rdropWhile_concat, List.dropWhile_append]
    cases h : p a with
    | true =>
      rw [if_pos rfl, ih]
      split
      · rename_i empty
        rw [List.isEmpty_iff.mp empty]
        simp [List.rdropWhile, h]
      · rw [List.rdropWhile_concat, if_pos h]
    | false =>
      rw [if_neg (by simp), List.dropWhile_append]
      split
      · simp [List.rdropWhile, h]
      · rw [List.rdropWhile_concat, if_neg (by simp [h])]

/-- It makes no difference if the front was cut before. -/
theorem trimChars_dropWhile (l : List Char) : trimChars (l.dropWhile isBlank) = trimChars l := by
  rw [trimChars, List.dropWhile_idempotent, trimChars]

/-- It makes no difference if the back was cut before. -/
theorem trimChars_dropTailWhile (l : List Char) :
    trimChars (dropTailWhile isBlank l) = trimChars l := by
  rw [trimChars, dropWhile_dropTailWhile, trimChars, dropTailWhile_eq_rdropWhile,
    dropTailWhile_eq_rdropWhile, List.rdropWhile_idempotent]

/-- A text is what trimming leaves, with what is blank around it. -/
theorem append_trimChars_append (l : List Char) :
    l.takeWhile isBlank ++ (trimChars l ++ (l.dropWhile isBlank).rtakeWhile isBlank) = l := by
  rw [trimChars, dropTailWhile_eq_rdropWhile, List.rdropWhile_append_rtakeWhile,
    List.takeWhile_append_dropWhile]

/-- The first character that is left is the first one that is not blank. -/
theorem head?_trimChars (l : List Char) : (trimChars l).head? = l.find? (!isBlank ·) := by
  have same : l.find? (!isBlank ·) = (l.dropWhile isBlank).head? := by
    rw [List.find?_eq_head?_dropWhile_not]
    simp
  rw [same, trimChars]
  cases front : l.dropWhile isBlank with
  | nil => rfl
  | cons c rest => rw [dropTailWhile_cons rest (not_of_dropWhile_eq_cons front)]; rfl

theorem trimChars_sublist (l : List Char) : (trimChars l).Sublist l :=
  (List.rdropWhile_prefix isBlank _).sublist.trans (List.dropWhile_sublist isBlank)

/-- There is nothing to trim if a text neither begins nor ends with a blank character. -/
theorem trimChars_eq_self_iff (l : List Char) : trimChars l = l ↔
    (∀ c ∈ l.head?, isBlank c = false) ∧ ∀ c ∈ l.getLast?, isBlank c = false := by
  have front : l.dropWhile isBlank = l ↔ ∀ c ∈ l.head?, isBlank c = false := by
    cases l <;> simp [List.dropWhile_eq_self_iff]
  have back : l.rdropWhile isBlank = l ↔ ∀ c ∈ l.getLast?, isBlank c = false := by
    cases l using List.reverseRecOn <;> simp [List.rdropWhile_eq_self_iff]
  rw [← front, ← back, trimChars, dropTailWhile_eq_rdropWhile]
  constructor
  · intro same
    have whole : l.dropWhile isBlank = l := by
      refine (List.dropWhile_sublist isBlank).antisymm ?_
      calc l.Sublist ((l.dropWhile isBlank).rdropWhile isBlank) := by rw [same]
        _ |>.Sublist (l.dropWhile isBlank) := (List.rdropWhile_prefix isBlank _).sublist
    exact ⟨whole, by rwa [whole] at same⟩
  · rintro ⟨whole, same⟩
    rw [whole, same]

/-- Trimming stops at the first and at the last character that is not blank. -/
theorem trimChars_of_ends {a b : Char} (l : List Char) {tail : List Char}
    (first : isBlank a = false) (last : isBlank b = false) (blank : tail.all isBlank = true) :
    trimChars (a :: l ++ b :: tail) = a :: l ++ [b] := by
  have dropped : (tail.reverse ++ b :: (a :: l).reverse).dropWhile isBlank =
      b :: (a :: l).reverse := by
    rw [List.dropWhile_append_of_pos fun c mem =>
      List.all_eq_true.mp blank c (List.mem_reverse.mp mem)]
    exact List.dropWhile_cons_of_neg (by simp [last])
  rw [trimChars, List.cons_append, List.dropWhile_cons_of_neg (by simp [first]), dropTailWhile,
    ← List.cons_append, List.reverse_append, List.reverse_cons, List.append_assoc,
    List.singleton_append, dropped]
  simp

/-- There are words unless a text is blank. -/
theorem wordsOf_eq_nil_iff (l : List Char) : wordsOf l = [] ↔ l.all isBlank = true := by
  induction l with
  | nil => simp
  | cons c l ih =>
    rw [wordsOf, splitOn]
    split
    · rename_i h
      simpa [wordsOf, h] using ih
    · split <;> simp_all

/-- A text with characters, of which the first and the last one are not blank. -/
def Trimmed (s : String) : Prop := s ≠ "" ∧ trim s = s

/-- A trimmed text has no blank ends. -/
theorem trim_trim (s : String) : trim (trim s) = trim s := by
  simp [trim, trimChars_trimChars]

theorem trim_eq_empty_iff (s : String) : trim s = "" ↔ blank s = true := by
  rw [blank, ← trimChars_eq_nil_iff, trim, String.ofList_eq_empty_iff]

@[simp] theorem blank_trim (s : String) : blank (trim s) = blank s := by
  rw [Bool.eq_iff_iff, ← trim_eq_empty_iff, ← trim_eq_empty_iff, trim_trim]

/-- What is left of a text that is not blank is trimmed. -/
theorem trimmed_trim {s : String} (h : blank s = false) : Trimmed (trim s) := by
  refine ⟨fun empty => ?_, trim_trim s⟩
  rw [trim_eq_empty_iff, h] at empty
  cases empty

namespace Trimmed

variable {s s' : String} {parts : List String}

theorem iff_toList : Trimmed s ↔ s.toList ≠ [] ∧ trimChars s.toList = s.toList := by
  have same : trim s = s ↔ trimChars s.toList = s.toList := by
    rw [trim, ← String.toList_inj, String.toList_ofList]
  rw [Trimmed, same, Ne, Ne, String.toList_eq_nil_iff]

/-- Whatever stands between two trimmed texts, the whole is trimmed. -/
theorem append (h : Trimmed s) (middle : String) (h' : Trimmed s') :
    Trimmed (s ++ middle ++ s') := by
  rw [iff_toList, trimChars_eq_self_iff] at h h' ⊢
  rw [String.toList_append, String.toList_append]
  refine ⟨by simp [h.1], ?_, ?_⟩
  · rw [List.append_assoc, List.head?_append_of_ne_nil _ h.1]
    exact h.2.1
  · rw [List.getLast?_append_of_ne_nil _ h'.1]
    exact h'.2.2

theorem intercalate (separator : String) (filled : parts ≠ [])
    (h : ∀ part ∈ parts, Trimmed part) : Trimmed (String.intercalate separator parts) := by
  induction parts with
  | nil => exact absurd rfl filled
  | cons part parts ih =>
    by_cases last : parts = []
    · rw [last, String.intercalate_singleton]
      exact h part (by simp)
    · rw [String.intercalate_cons_of_ne_nil last]
      exact (h part (by simp)).append separator (ih last fun p mem => h p (by simp [mem]))

end Trimmed

end RoomAudio.Text
