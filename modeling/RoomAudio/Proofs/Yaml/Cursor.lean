import RoomAudio.Text.Blank
import RoomAudio.Yaml.Quoting

/-!
# Moving through a written document

A value is written up to the end of its line, and what follows it begins on a line of its own, not
deeper than the block around the value. At the end of a document the last line break may be
missing.

## Main definitions

* `Yaml.Follows` — what may stand behind a value.
* `Yaml.ahead` — a written value with what follows it.
-/

namespace RoomAudio.Yaml

/-! ## Places -/

namespace Mark

@[simp] theorem advance_zero (m : Mark) : m.advance 0 = m := rfl

theorem next_eq_advance (m : Mark) : m.next = m.advance 1 := rfl

@[simp] theorem advance_advance (m : Mark) (a b : Nat) :
    (m.advance a).advance b = m.advance (a + b) := by
  simp [advance, Nat.add_assoc]

@[simp] theorem column_advance (m : Mark) (n : Nat) : (m.advance n).column = m.column + n := rfl

@[simp] theorem line_advance (m : Mark) (n : Nat) : (m.advance n).line = m.line := rfl

@[simp] theorem index_advance (m : Mark) (n : Nat) : (m.advance n).index = m.index + n := rfl

@[simp] theorem column_newline (m : Mark) (n : Nat) : (m.newline n).column = 0 := rfl

@[simp] theorem line_newline (m : Mark) (n : Nat) : (m.newline n).line = m.line + 1 := rfl

end Mark

/-! ## Characters -/

section Characters

variable {c : Char}

theorem ne_return_of_isPrintable (h : isPrintable c = true) : c ≠ '\r' := by
  rintro rfl
  exact absurd h (by decide)

theorem ne_tab_of_isPrintable (h : isPrintable c = true) : c ≠ '\t' := by
  rintro rfl
  exact absurd h (by decide)

theorem isBlank_of_isBreak (h : isBreak c = true) : Text.isBlank c = true := by
  simp only [isBreak, Bool.or_eq_true, beq_iff_eq] at h
  rcases h with (((rfl | rfl) | rfl) | rfl) | rfl <;> rfl

theorem isSpacing_of_isPrintable (h : isPrintable c = true) : isSpacing c = (c == ' ') := by
  simp [isSpacing, ne_tab_of_isPrintable h]

theorem isPermitted_of_isPrintable (h : isPrintable c = true) : isPermitted c = true := by
  simp only [isPrintable, isPermitted, Bool.or_eq_true, Bool.and_eq_true, decide_eq_true_eq,
    beq_iff_eq] at h ⊢
  omega

/-- The breaks that are written as they are. -/
theorem breakValue_of_isPrintable (h : isPrintable c = true) (break_ : isBreak c = true) :
    breakValue c = c := by
  simp only [isBreak, Bool.or_eq_true, beq_iff_eq] at break_
  rcases break_ with (((rfl | rfl) | rfl) | rfl) | rfl
  · rfl
  · exact absurd h (by decide)
  · exact absurd h (by decide)
  · rfl
  · rfl

theorem not_isBreak_of_not_isGap (h : isGap c = false) : isBreak c = false := by
  simp only [isGap, Bool.or_eq_false_iff] at h
  exact h.2

theorem not_isSpacing_of_not_isGap (h : isGap c = false) : isSpacing c = false := by
  simp only [isGap, Bool.or_eq_false_iff] at h
  exact h.1

theorem ne_of_not_isGap (h : isGap c = false) : c ≠ ' ' ∧ c ≠ '\t' ∧ c ≠ '\n' ∧ c ≠ '\r' := by
  refine ⟨?_, ?_, ?_, ?_⟩ <;>
    · rintro rfl
      exact absurd h (by decide)

end Characters

/-! ## What stands behind a value -/

def StartsToken (c : Char) : Prop := isGap c = false ∧ c ≠ '#' ∧ c ≠ byteOrderMark

/-- The rest of a document at the beginning of a line: nothing, or a token that lies in column
`indent` at most. -/
inductive Follows (indent : Nat) : List Char → Prop where
  | ended : Follows indent []
  | token {k : Nat} {c : Char} {rest : List Char} (column : k ≤ indent) (starts : StartsToken c) :
      Follows indent (indentation k ++ c :: rest)

/-- What may follow a block may follow a deeper one. -/
theorem Follows.mono {i j : Nat} {next : List Char} (h : Follows i next) (le : i ≤ j) :
    Follows j next := by
  cases h with
  | ended => exact .ended
  | token column starts => exact .token (Nat.le_trans column le) starts

/-- A reader that began in line `line` has come to an end behind its value: the text is over, or the
reader stands at the token of a later line, behind the indentation of it. -/
inductive Passed (line : Nat) : List Char → Cursor → Prop where
  | ended (m : Mark) : Passed line [] ⟨[], m⟩
  | token {k : Nat} {c : Char} {rest : List Char} {m : Mark} (starts : StartsToken c)
      (start : m.column = 0) (later : line < m.line) :
      Passed line (indentation k ++ c :: rest) ⟨c :: rest, m.advance k⟩

/-- A reader at the end of its value has passed nothing of what follows. -/
theorem Passed.length_le {line : Nat} {next : List Char} {c : Cursor} (h : Passed line next c) :
    c.rest.length ≤ next.length := by
  cases h <;> simp

/-- A written value in front of what follows it. At the very end its last line break is missing. -/
def ahead (written next : List Char) : List Char :=
  if next.isEmpty then written.dropLast else written ++ next

theorem ahead_nil (written : List Char) : ahead written [] = written.dropLast := rfl

/-- Only at the very end a line break is missing. -/
theorem ahead_of_ne_nil {written next : List Char} (h : next ≠ []) :
    ahead written next = written ++ next := by
  simp [ahead, h]

theorem nil_ahead (next : List Char) : ahead [] next = next := by
  cases next <;> rfl

theorem length_le_ahead (written next : List Char) : next.length ≤ (ahead written next).length := by
  cases next <;> simp [ahead]

/-- A value that ends with the end of its line. -/
theorem concat_ahead (a next : List Char) : ahead (a ++ ['\n']) next = a ++ ahead ['\n'] next := by
  cases next <;> simp [ahead]

theorem append_ahead {a b next : List Char} (h : b ≠ []) :
    ahead (a ++ b) next = a ++ ahead b next := by
  cases next with
  | nil => exact List.dropLast_append_of_ne_nil h
  | cons d next => simp [ahead]

theorem cons_ahead {c : Char} {a next : List Char} (h : a ≠ []) :
    ahead (c :: a) next = c :: ahead a next :=
  append_ahead (a := [c]) h

/-- Written values stand one behind the other. -/
theorem ahead_append {a b next : List Char} (h : b ≠ [] → ahead b next ≠ []) :
    ahead (a ++ b) next = ahead a (ahead b next) := by
  by_cases empty : b = []
  · rw [empty, List.append_nil, nil_ahead]
  · rw [append_ahead empty, ahead_of_ne_nil (h empty)]

end RoomAudio.Yaml
