import RoomAudio.Json.Quoted

/-!
# Reading back quoted texts

The written form of a text is read as that text. Reading goes piece by piece: whatever stands for a
character is read as one piece, and the piece spells the character.

## Main definitions

* `Json.readQuoted_escape` — one character is read back.
* `Json.readQuoted_flatMap_escape` — so are whole texts.
-/

namespace RoomAudio.Json

theorem hexValue?_hexDigit : ∀ n < 16, hexValue? (hexDigit n) = some n := by decide

/-- The code of a control character is read back. -/
theorem hexValue4?_code {n : Nat} (h : n < 0x20) :
    hexValue4? '0' '0' (hexDigit (n / 16)) (hexDigit (n % 16)) = some n := by
  have zero : hexValue? '0' = some 0 := rfl
  simp only [hexValue4?, zero, hexValue?_hexDigit (n / 16) (by omega),
    hexValue?_hexDigit (n % 16) (by omega)]
  change some _ = some n
  congr 1
  omega

def consPiece (piece : Piece) (read : Option (List Piece × List Char)) :
    Option (List Piece × List Char) :=
  read.map fun (pieces, rest) => (piece :: pieces, rest)

/-- An escape sequence of one letter is a character. -/
theorem readQuoted_simple {c d : Char} (l : List Char) (h : simpleEscape? c = some d) :
    readQuoted ('\\' :: c :: l) = consPiece (.char d) (readQuoted l) := by
  have other : c ≠ 'u' := by
    rintro rfl
    cases h
  rw [readQuoted, h]
  · cases readQuoted l <;> rfl
  · intro _ _ _ _ _ code
    exact absurd code other

/-- An escape sequence with a code is the unit of that code. -/
theorem readQuoted_code {n : Nat} (l : List Char) (h : n < 0x20) :
    readQuoted (escapeCode n ++ l) = consPiece (.unit n) (readQuoted l) := by
  have code := hexValue4?_code h
  rw [escapeCode, List.cons_append, List.cons_append, List.cons_append, List.cons_append,
    List.cons_append, List.cons_append, List.nil_append, readQuoted, code]
  cases readQuoted l <;> rfl

/-- A character without a meaning of its own stands for itself. -/
theorem readQuoted_plain {c : Char} (l : List Char) (quote : c ≠ '"') (backslash : c ≠ '\\')
    (printed : ¬c.toNat < 0x20) : readQuoted (c :: l) = consPiece (.char c) (readQuoted l) := by
  rw [readQuoted, if_neg (by simp [backslash, printed])]
  · cases readQuoted l <;> rfl
  · exact quote
  · intro _ _ _ _ _ code
    exact absurd code backslash
  · intro _ _ simple
    exact absurd simple backslash

/-- What is written for a character is read as a piece that spells it. -/
theorem readQuoted_escape (c : Char) : ∃ piece,
    (∀ l, readQuoted (escape c ++ l) = consPiece piece (readQuoted l)) ∧
      ∀ pieces, textOf? (piece :: pieces) = (textOf? pieces).map (c :: ·) := by
  have simple (letter : Char) (written : escape c = ['\\', letter])
      (h : simpleEscape? letter = some c) : ∃ piece,
        (∀ l, readQuoted (escape c ++ l) = consPiece piece (readQuoted l)) ∧
          ∀ pieces, textOf? (piece :: pieces) = (textOf? pieces).map (c :: ·) := by
    refine ⟨.char c, fun l => ?_, fun pieces => rfl⟩
    rw [written]
    exact readQuoted_simple l h
  have named {code : Nat} (h : c.toNat = code) : c = Char.ofNat code := by
    rw [← h, Char.ofNat_toNat]
  by_cases quote : c = '"'
  · exact simple '"' (by simp [escape, quote]) (by rw [quote]; rfl)
  by_cases backslash : c = '\\'
  · exact simple '\\' (by simp [escape, backslash]) (by rw [backslash]; rfl)
  by_cases backspace : c.toNat = 0x08
  · obtain rfl := named backspace
    exact simple _ rfl rfl
  by_cases feed : c.toNat = 0x0C
  · obtain rfl := named feed
    exact simple _ rfl rfl
  by_cases line : c = '\n'
  · obtain rfl := line
    exact simple _ rfl rfl
  by_cases carriage : c = '\r'
  · obtain rfl := carriage
    exact simple _ rfl rfl
  by_cases tab : c = '\t'
  · obtain rfl := tab
    exact simple _ rfl rfl
  by_cases control : c.toNat < 0x20
  · have written : escape c = escapeCode c.toNat := by
      simp [escape, quote, backslash, backspace, feed, line, carriage, tab, control]
    refine ⟨.unit c.toNat, fun l => ?_, fun pieces => ?_⟩
    · rw [written]
      exact readQuoted_code l control
    · have low : isTrailing c.toNat = false ∧ isLeading c.toNat = false := by
        simp only [isTrailing, isLeading, Bool.and_eq_false_iff, decide_eq_false_iff_not]
        omega
      rw [textOf?.eq_def]
      simp only [low.1, low.2, Char.ofNat_toNat, Bool.false_eq_true, if_false]
  · have written : escape c = [c] := by
      simp [escape, quote, backslash, backspace, feed, line, carriage, tab, control]
    refine ⟨.char c, fun l => ?_, fun pieces => rfl⟩
    rw [written]
    exact readQuoted_plain l quote backslash control

/-- The written form of a text is read up to its closing quote and spells the text. -/
theorem readQuoted_flatMap_escape (l : List Char) : ∃ pieces,
    (∀ rest, readQuoted (l.flatMap escape ++ '"' :: rest) = some (pieces, rest)) ∧
      textOf? pieces = some l := by
  induction l with
  | nil => exact ⟨[], fun rest => rfl, rfl⟩
  | cons c l ih =>
    obtain ⟨pieces, reads, spells⟩ := ih
    obtain ⟨piece, first, spelled⟩ := readQuoted_escape c
    refine ⟨piece :: pieces, fun rest => ?_, ?_⟩
    · rw [List.flatMap_cons, List.append_assoc, first, reads]
      rfl
    · rw [spelled, spells]
      rfl

end RoomAudio.Json
