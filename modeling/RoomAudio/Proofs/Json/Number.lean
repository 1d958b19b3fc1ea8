import RoomAudio.Data
import RoomAudio.Json.Tree

/-!
# Reading back integers

An integer in decimal notation is read as a number without point and power that has the value of
the integer, provided that the text behind it does not continue the number.

## Main definitions

* `Json.Closes` — texts that may stand behind a value.
* `Json.Number.ofInt` — an integer as a number.
* `Json.Number.read_decimal`, `Json.Number.int?_ofInt` — reading an integer back.
-/

namespace RoomAudio.Json

/-- What stands behind a value in an indented text: nothing, a comma, or a line break. -/
def Closes (rest : List Char) : Prop := ∀ c ∈ rest.head?, c = ',' ∨ c = '\n'

theorem Closes.cases {rest : List Char} (h : Closes rest) :
    rest = [] ∨ (∃ tail, rest = ',' :: tail) ∨ ∃ tail, rest = '\n' :: tail := by
  cases rest with
  | nil => exact .inl rfl
  | cons c tail =>
    rcases h c rfl with rfl | rfl
    · exact .inr (.inl ⟨tail, rfl⟩)
    · exact .inr (.inr ⟨tail, rfl⟩)

/-! ## Digits -/

/-- Decimal notation consists of digits. -/
theorem isDigit_of_mem_digits {n : Nat} {c : Char} (h : c ∈ Nat.toDigits 10 n) :
    c.isDigit = true :=
  Nat.isDigit_of_mem_toDigits (by decide) (by decide) h

theorem digits_ne_cons {c : Char} (h : c.isDigit = false) (n : Nat) (l : List Char) :
    Nat.toDigits 10 n ≠ c :: l := by
  intro written
  have digit : c.isDigit = true := isDigit_of_mem_digits (n := n) (by simp [written])
  rw [h] at digit
  cases digit

/-- Only zero is written with a zero in front. -/
theorem digits_eq_cons {n : Nat} (pos : 0 < n) :
    ∃ c tail, Nat.toDigits 10 n = c :: tail ∧ c ≠ '0' := by
  induction n using Nat.strongRecOn with
  | ind n ih =>
    by_cases small : n < 10
    · have lead : ∀ n < 10, 0 < n → n.digitChar ≠ '0' := by decide
      exact ⟨n.digitChar, [], Nat.toDigits_of_lt_base small, lead n small pos⟩
    · obtain ⟨c, tail, digits, lead⟩ := ih (n / 10) (by omega) (by omega)
      exact ⟨c, _, by rw [Nat.toDigits_of_base_le (by decide) (by omega), digits]; rfl, lead⟩

/-- The number of its own digits. -/
theorem valueOfDigits_digits (n : Nat) : Text.valueOfDigits (Nat.toDigits 10 n) = n :=
  Nat.ofDigitChars_ten_toDigits

/-- Digits are read up to what closes them. -/
theorem takeWhile_digits (n : Nat) {rest : List Char} (h : Closes rest) :
    (Nat.toDigits 10 n ++ rest).takeWhile Char.isDigit = Nat.toDigits 10 n ∧
      (Nat.toDigits 10 n ++ rest).dropWhile Char.isDigit = rest := by
  have stop : rest.takeWhile Char.isDigit = [] ∧ rest.dropWhile Char.isDigit = rest := by
    rcases h.cases with rfl | ⟨tail, rfl⟩ | ⟨tail, rfl⟩
    · exact ⟨rfl, rfl⟩
    · exact ⟨rfl, rfl⟩
    · exact ⟨rfl, rfl⟩
  have digits : ∀ c ∈ Nat.toDigits 10 n, c.isDigit = true := fun c => isDigit_of_mem_digits
  constructor
  · rw [List.takeWhile_append_of_pos digits, stop.1, List.append_nil]
  · rw [List.dropWhile_append_of_pos digits, stop.2]

/-! ## Numbers -/

namespace Number

def ofInt (i : Int) : Number := ⟨decide (i < 0), Nat.toDigits 10 i.natAbs, none, none⟩

theorem readWhole_digits (n : Nat) {rest : List Char} (h : Closes rest) :
    readWhole (Nat.toDigits 10 n ++ rest) = some (Nat.toDigits 10 n, rest) := by
  have digits : readDigits (Nat.toDigits 10 n ++ rest) = some (Nat.toDigits 10 n, rest) := by
    obtain ⟨taken, dropped⟩ := takeWhile_digits n h
    simp only [readDigits, taken, dropped, List.isEmpty_iff, Nat.toDigits_ne_nil, if_false]
  by_cases zero : n = 0
  · subst zero
    rw [Nat.toDigits_zero]
    rcases h.cases with rfl | ⟨tail, rfl⟩ | ⟨tail, rfl⟩
    · rfl
    · rfl
    · rfl
  · obtain ⟨c, tail, written, lead⟩ := digits_eq_cons (n := n) (by omega)
    rw [written, List.cons_append] at digits ⊢
    rw [readWhole]
    · exact digits
    · intro _ same
      exact absurd (List.cons_eq_cons.mp same).1 lead

/-- A number without a sign is read back as its digits. -/
theorem readUnsigned_digits (negative : Bool) (n : Nat) {rest : List Char} (h : Closes rest) :
    readUnsigned negative (Nat.toDigits 10 n ++ rest) =
      some (⟨negative, Nat.toDigits 10 n, none, none⟩, rest) := by
  have behind : readFraction rest = some (none, rest) ∧ readExponent rest = some (none, rest) := by
    rcases h.cases with rfl | ⟨tail, rfl⟩ | ⟨tail, rfl⟩
    · exact ⟨rfl, rfl⟩
    · exact ⟨rfl, rfl⟩
    · exact ⟨rfl, rfl⟩
  simp only [readUnsigned, readWhole_digits n h, Option.bind_eq_bind, Option.bind_some, behind.1,
    behind.2]
  rfl

/-- An integer is read as its number. -/
theorem read_decimal (i : Int) {rest : List Char} (h : Closes rest) :
    read (Data.decimal i ++ rest) = some (ofInt i, rest) := by
  cases i with
  | ofNat n =>
    have unsigned : read (Nat.toDigits 10 n ++ rest) =
        readUnsigned false (Nat.toDigits 10 n ++ rest) := by
      rw [read]
      intro tail minus
      cases digits : Nat.toDigits 10 n with
      | nil => exact absurd digits Nat.toDigits_ne_nil
      | cons c others =>
        rw [digits] at minus
        obtain rfl := (List.cons_eq_cons.mp minus).1
        exact digits_ne_cons rfl n others digits
    exact unsigned.trans (readUnsigned_digits false n h)
  | negSucc n =>
    have number : ofInt (.negSucc n) = ⟨true, Nat.toDigits 10 (n + 1), none, none⟩ := by
      simp [ofInt, Int.negSucc_lt_zero]
    rw [number]
    exact readUnsigned_digits true (n + 1) h

/-- The number of an integer of 64 bits has the value of the integer. -/
theorem int?_ofInt {i : Int} (h : Text.isInt64 i = true) : (ofInt i).int? = some i := by
  have value : (if decide (i < 0) = true then -(i.natAbs : Int) else i.natAbs) = i := by
    by_cases negative : i < 0
    · simp only [negative, decide_true, if_true]
      omega
    · simp only [negative, decide_false, Bool.false_eq_true, if_false]
      omega
  have signed : (decide (i < 0) && i.natAbs == 0) = false := by
    by_cases negative : i < 0
    · have nonzero : i.natAbs ≠ 0 := by omega
      simp [nonzero]
    · simp [negative]
  simp only [int?, ofInt, valueOfDigits_digits, signed, value, h, Option.isSome_none, Bool.or_self,
    Bool.false_eq_true, if_false, if_true]

end Number

end RoomAudio.Json
