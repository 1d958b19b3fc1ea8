import Mathlib.Data.List.Basic
import RoomAudio.Proofs.Json.Number
import RoomAudio.Proofs.Yaml.Plain

/-!
# Integers as plain scalars

An integer in decimal notation is written plainly, and it is read from there with its value.

## Main definitions

* `Yaml.allowsPlain_decimal` — an integer keeps its characters when it is written plainly.
* `Yaml.integer?_decimal` — an integer is read from its decimal notation.
-/

namespace RoomAudio.Yaml

/-! ## Written plainly -/

theorem hasBeforeGap_of_not_mem {c : Char} {l : List Char} (h : c ∉ l) :
    hasBeforeGap c l = false := by
  induction l with
  | nil => rfl
  | cons d l ih =>
    obtain ⟨other, others⟩ : c ≠ d ∧ c ∉ l := by simpa using h
    simp [hasBeforeGap, ih others, other.symm]

theorem hasNeighbours_of_forall {p q : Char → Bool} {l : List Char} (h : ∀ c ∈ l, p c = false) :
    hasNeighbours p q l = false := by
  induction l with
  | nil => rfl
  | cons c l ih =>
    cases l with
    | nil => rfl
    | cons d l =>
      rw [hasNeighbours, h c (by simp), ih fun e mem => h e (by simp [mem])]
      rfl

theorem toNat_of_isDigit {c : Char} (h : c.isDigit = true) : 48 ≤ c.toNat ∧ c.toNat ≤ 57 := by
  simpa [Char.isDigit, UInt32.le_iff_toNat_le] using h

theorem plain_of_isDigit {c : Char} (h : c.isDigit = true) :
    isPrintable c = true ∧ isGap c = false ∧ isLeadingIndicator c = false ∧ c ≠ ':' ∧ c ≠ '-' ∧
      c ≠ '.' ∧ c ≠ '?' := by
  have all : ∀ n < 10, isPrintable (Char.ofNat (48 + n)) = true ∧
      isGap (Char.ofNat (48 + n)) = false ∧ isLeadingIndicator (Char.ofNat (48 + n)) = false ∧
      Char.ofNat (48 + n) ≠ ':' ∧ Char.ofNat (48 + n) ≠ '-' ∧ Char.ofNat (48 + n) ≠ '.' ∧
      Char.ofNat (48 + n) ≠ '?' := by decide
  have bounds := toNat_of_isDigit h
  have same := all (c.toNat - 48) (by omega)
  rwa [Nat.add_sub_cancel' bounds.1, Char.ofNat_toNat] at same

theorem exists_digits (n : Nat) : ∃ c l, Nat.toDigits 10 n = c :: l ∧
    ∀ d ∈ c :: l, d.isDigit = true := by
  obtain ⟨c, l, same⟩ := List.exists_cons_of_ne_nil (Nat.toDigits_ne_nil (n := n) (b := 10))
  refine ⟨c, l, same, fun d mem => ?_⟩
  rw [← same] at mem
  exact Json.isDigit_of_mem_digits mem

/-- A text without gaps and colons is written plainly if its beginning says nothing else. -/
theorem allowsPlain_of_chars {c : Char} {l : List Char}
    (chars : ∀ d ∈ c :: l, isPrintable d = true ∧ isGap d = false ∧ d ≠ ':')
    (noMarker : startsLikeMarker (c :: l) = false) (noLeading : isLeadingIndicator c = false)
    (noEntry : isEntryIndicator c = true → startsGap l = false) : allowsPlain (c :: l) = true := by
  have unbroken : ((c :: l).all fun c => isPrintable c && !isBreak c) = true := by
    rw [List.all_eq_true]
    intro d mem
    rw [(chars d mem).1, not_isBreak_of_not_isGap (chars d mem).2.1]
    rfl
  have noSpace : hasOuterSpace (c :: l) = false := by
    rw [hasOuterSpace, Bool.or_eq_false_iff, beq_eq_false_iff_ne, beq_eq_false_iff_ne]
    have noSpace (d : Char) (mem : d ∈ c :: l) : d ≠ ' ' := (ne_of_not_isGap (chars d mem).2.1).1
    exact ⟨fun head => noSpace ' ' (List.mem_of_head? head) rfl,
      fun last => noSpace ' ' (List.mem_of_getLast? last) rfl⟩
  have noIndicator : hasIndicator (c :: l) = false := by
    have entry : (isEntryIndicator c && startsGap l) = false := by simpa using noEntry
    simp only [hasIndicator, noMarker, noLeading, entry, Bool.or_self,
      hasBeforeGap_of_not_mem fun mem => (chars ':' mem).2.2 rfl,
      hasNeighbours_of_forall fun d mem => (chars d mem).2.1]
  rw [allowsPlain, unbroken, noSpace, noIndicator]
  rfl

/-- Digits are written plainly, possibly behind a sign. -/
theorem allowsPlain_of_digits {c : Char} {l : List Char} (digits : ∀ d ∈ c :: l, d.isDigit = true) :
    allowsPlain (c :: l) = true ∧ allowsPlain ('-' :: c :: l) = true := by
  have chars (d : Char) (mem : d ∈ '-' :: c :: l) :
      isPrintable d = true ∧ isGap d = false ∧ d ≠ ':' := by
    rcases List.mem_cons.mp mem with rfl | mem
    · decide
    · obtain ⟨printable, noGap, -, noColon, -⟩ := plain_of_isDigit (digits d mem)
      exact ⟨printable, noGap, noColon⟩
  obtain ⟨-, noGap, noLeading, -, noHyphen, noPoint, noQuestion⟩ :=
    plain_of_isDigit (digits c (by simp))
  have noMarker (rest : List Char) :
      startsLikeMarker (c :: l) = false ∧ startsLikeMarker ('-' :: c :: l) = false := by
    constructor <;> rw [startsLikeMarker.eq_def] <;> split <;> simp_all
  have noEntry : isEntryIndicator c = false := by simp [isEntryIndicator, noHyphen, noQuestion]
  exact ⟨allowsPlain_of_chars (fun d mem => chars d (by simp [List.mem_cons.mp mem]))
      (noMarker l).1 noLeading (by simp [noEntry]),
    allowsPlain_of_chars chars (noMarker l).2 rfl fun _ => noGap⟩

/-- Integers are written plainly. -/
theorem allowsPlain_decimal (i : Int) : allowsPlain (Data.decimal i) = true := by
  cases i with
  | ofNat n =>
    obtain ⟨c, l, same, digits⟩ := exists_digits n
    rw [Data.decimal, same]
    exact (allowsPlain_of_digits digits).1
  | negSucc n =>
    obtain ⟨c, l, same, digits⟩ := exists_digits (n + 1)
    rw [Data.decimal, same]
    exact (allowsPlain_of_digits digits).2

/-- An integer ends with a digit. -/
theorem decimal_eq_concat (i : Int) : ∃ l c, Data.decimal i = l ++ [c] ∧ c.isDigit = true := by
  have digits (n : Nat) : ∃ l c, Nat.toDigits 10 n = l ++ [c] ∧ c.isDigit = true := by
    obtain ⟨l, c, same⟩ := (List.eq_nil_or_concat' _).resolve_left
      (Nat.toDigits_ne_nil (n := n) (b := 10))
    exact ⟨l, c, same, Json.isDigit_of_mem_digits (by rw [same]; simp)⟩
  cases i with
  | ofNat n => exact digits n
  | negSucc n =>
    obtain ⟨l, c, same, digit⟩ := digits (n + 1)
    exact ⟨'-' :: l, c, by rw [Data.decimal, same]; rfl, digit⟩

/-! ## Read back -/

theorem hexValue?_of_isDigit {c : Char} (h : c.isDigit = true) :
    Json.hexValue? c = some (c.toNat - '0'.toNat) := by
  have all : ∀ n < 10, Json.hexValue? (Char.ofNat (48 + n)) = some n := by decide
  have bounds := toNat_of_isDigit h
  have same := all (c.toNat - 48) (by omega)
  rwa [Nat.add_sub_cancel' bounds.1, Char.ofNat_toNat] at same

/-- Digits have the same value in every notation with base ten. -/
theorem valueIn?_digits {l : List Char} (some : l ≠ []) (digits : ∀ c ∈ l, c.isDigit = true) :
    valueIn? 10 l = .some (Text.valueOfDigits l) := by
  have empty : l.isEmpty = false := by simpa using some
  rw [valueIn?, empty, if_neg Bool.false_ne_true, Text.valueOfDigits]
  generalize 0 = n
  clear some empty
  induction l generalizing n with
  | nil => rfl
  | cons c l ih =>
    have digit := digits c (by simp)
    have bounds := toNat_of_isDigit digit
    have small : c.toNat - '0'.toNat < 10 := by
      have zero : '0'.toNat = 48 := rfl
      omega
    have others := ih (fun d mem => digits d (by simp [mem])) (10 * n + (c.toNat - '0'.toNat))
    rw [List.foldlM_cons, hexValue?_of_isDigit digit, List.foldl_cons, ← others]
    simp only [Option.bind_eq_bind, Option.bind_some, if_pos small]

/-- Decimal notation is read as a number of its value. -/
theorem magnitude?_digits (n : Nat) : magnitude? (Nat.toDigits 10 n) = some n := by
  have digits (c : Char) (mem : c ∈ Nat.toDigits 10 n) : c.isDigit = true :=
    Json.isDigit_of_mem_digits mem
  have value := valueIn?_digits Nat.toDigits_ne_nil digits
  rw [Json.valueOfDigits_digits] at value
  have noPrefix (c : Char) (l : List Char) (letter : c.isDigit = false) :
      Nat.toDigits 10 n ≠ '0' :: c :: l := by
    intro same
    have digit := digits c (by rw [same]; simp)
    rw [letter] at digit
    cases digit
  have noPadding : isZeroPadded (Nat.toDigits 10 n) = false := by
    rcases Nat.eq_zero_or_pos n with rfl | pos
    · rfl
    · obtain ⟨c, tail, same, lead⟩ := Json.digits_eq_cons pos
      rw [same, isZeroPadded]
      rintro rest same
      exact lead (List.cons_eq_cons.mp same).1
  unfold magnitude?
  split
  · exact absurd ‹_› (noPrefix 'x' _ rfl)
  · exact absurd ‹_› (noPrefix 'o' _ rfl)
  · exact absurd ‹_› (noPrefix 'b' _ rfl)
  · rw [noPadding, if_neg Bool.false_ne_true, value]

/-- An integer is read from its decimal notation. -/
theorem integer?_decimal (i : Int) : integer? (Data.decimal i) = some i := by
  cases i with
  | ofNat n =>
    rw [Data.decimal]
    unfold integer?
    split
    · exact absurd ‹_› (Json.digits_ne_cons rfl n _)
    · exact absurd ‹_› (Json.digits_ne_cons rfl n _)
    · rw [magnitude?_digits]
      rfl
  | negSucc n =>
    rw [Data.decimal, integer?, magnitude?_digits]
    rfl

end RoomAudio.Yaml
