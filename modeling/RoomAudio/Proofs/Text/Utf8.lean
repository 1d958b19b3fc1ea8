import RoomAudio.Text.Utf8

/-!
# Reading back UTF-8

The bytes of a text are read as that text. A character is recognised by its first byte, so it is
enough to look at the bytes of one character in front of any others. Conversely a character has no
other bytes than those it is written with, so nothing else is read as a text.

## Main definitions

* `Utf8.decodeFrom_encodeChar` — one character is read back.
* `Utf8.decode_encode` — so are whole texts.
* `Utf8.decode_eq_ok_iff` — which bytes are a text.
-/

namespace RoomAudio.Text.Utf8

/-- Code points end at `U+10FFFF` and leave out the surrogates. -/
theorem toNat_bounds (c : Char) : c.toNat < 0xD800 ∨ (0xDFFF < c.toNat ∧ c.toNat < 0x110000) :=
  c.valid

theorem isTail_low (n : Nat) : isTail (0x80 + n % 64) = true := by
  simp only [isTail, Bool.and_eq_true, decide_eq_true_eq]
  omega

/-- The second byte of three lies in the range that the first one leaves open. -/
theorem isSecond_three {n : Nat} (large : 0x800 ≤ n) (small : n < 0x10000)
    (scalar : n < 0xD800 ∨ 0xDFFF < n) :
    isSecond (0xE0 + n / 4096) (0x80 + n / 64 % 64) = true := by
  unfold isSecond isTail
  repeat' split
  all_goals simp only [Bool.and_eq_true, decide_eq_true_eq]; omega

/-- The same for the second byte of four. -/
theorem isSecond_four {n : Nat} (large : 0x10000 ≤ n) (small : n < 0x110000) :
    isSecond (0xF0 + n / 262144) (0x80 + n / 4096 % 64) = true := by
  unfold isSecond isTail
  repeat' split
  all_goals simp only [Bool.and_eq_true, decide_eq_true_eq]; omega

theorem consChar_of_eq {c : Char} {n : Nat} (h : n = c.toNat) (rest : Except Fault (List Char)) :
    consChar n rest = rest.map (c :: ·) := by
  rw [consChar, h, Char.ofNat_toNat]

section Shapes

variable (start : Nat) (rest : List UInt8) {a b c d : UInt8}

theorem decodeFrom_one (first : a.toNat < 0x80) :
    decodeFrom start (a :: rest) = consChar a.toNat (decodeFrom (start + 1) rest) := by
  rw [decodeFrom.eq_def]
  simp only [if_pos first]

theorem decodeFrom_two (first : 0xC2 ≤ a.toNat ∧ a.toNat ≤ 0xDF) (second : isTail b.toNat = true) :
    decodeFrom start (a :: b :: rest) =
      consChar ((a.toNat - 0xC0) * 64 + (b.toNat - 0x80)) (decodeFrom (start + 2) rest) := by
  have high : ¬a.toNat < 0x80 := by omega
  rw [decodeFrom.eq_def]
  simp [high, first, second]

theorem decodeFrom_three (first : 0xE0 ≤ a.toNat ∧ a.toNat ≤ 0xEF)
    (second : isSecond a.toNat b.toNat = true) (third : isTail c.toNat = true) :
    decodeFrom start (a :: b :: c :: rest) =
      consChar ((a.toNat - 0xE0) * 4096 + (b.toNat - 0x80) * 64 + (c.toNat - 0x80))
        (decodeFrom (start + 3) rest) := by
  have high : ¬a.toNat < 0x80 := by omega
  have long : ¬a.toNat ≤ 0xDF := by omega
  rw [decodeFrom.eq_def]
  simp [high, long, first, second, third]

theorem decodeFrom_four (first : 0xF0 ≤ a.toNat ∧ a.toNat ≤ 0xF4)
    (second : isSecond a.toNat b.toNat = true) (third : isTail c.toNat = true)
    (fourth : isTail d.toNat = true) :
    decodeFrom start (a :: b :: c :: d :: rest) =
      consChar ((a.toNat - 0xF0) * 262144 + (b.toNat - 0x80) * 4096 + (c.toNat - 0x80) * 64 +
        (d.toNat - 0x80)) (decodeFrom (start + 4) rest) := by
  have high : ¬a.toNat < 0x80 := by omega
  have long : ¬a.toNat ≤ 0xDF := by omega
  have longer : ¬a.toNat ≤ 0xEF := by omega
  rw [decodeFrom.eq_def]
  simp [high, long, longer, first, second, third, fourth]

end Shapes

/-- The bytes of a character are read as that character, whatever follows. -/
theorem decodeFrom_encodeChar (c : Char) (rest : List UInt8) (start : Nat) :
    decodeFrom start (encodeChar c ++ rest) =
      (decodeFrom (start + (encodeChar c).length) rest).map (c :: ·) := by
  have bounds := toNat_bounds c
  have byte {n : Nat} (h : n < 256) : (UInt8.ofNat n).toNat = n := UInt8.toNat_ofNat_of_lt h
  have tail (n : Nat) : (UInt8.ofNat (0x80 + n % 64)).toNat = 0x80 + n % 64 := byte (by omega)
  unfold encodeChar
  dsimp only
  split
  · rename_i one
    have lead := byte (n := c.toNat) (by omega)
    refine (decodeFrom_one start rest (by omega)).trans (consChar_of_eq lead _)
  split
  · rename_i one two
    have lead := byte (n := 0xC0 + c.toNat / 64) (by omega)
    refine (decodeFrom_two start rest (by omega) ?_).trans (consChar_of_eq ?_ _)
    · rw [tail]
      exact isTail_low _
    · rw [lead, tail]
      omega
  split
  · rename_i one two three
    have lead := byte (n := 0xE0 + c.toNat / 4096) (by omega)
    refine (decodeFrom_three start rest (by omega) ?_ ?_).trans (consChar_of_eq ?_ _)
    · rw [lead, tail]
      exact isSecond_three (by omega) three (by omega)
    · rw [tail]
      exact isTail_low _
    · rw [lead, tail, tail]
      omega
  · rename_i one two three
    have lead := byte (n := 0xF0 + c.toNat / 262144) (by omega)
    refine (decodeFrom_four start rest (by omega) ?_ ?_ ?_).trans (consChar_of_eq ?_ _)
    · rw [lead, tail]
      exact isSecond_four (by omega) (by omega)
    · rw [tail]
      exact isTail_low _
    · rw [tail]
      exact isTail_low _
    · rw [lead, tail, tail, tail]
      omega

/-- Encoded text is decoded, wherever it starts. -/
theorem decodeFrom_encode (l : List Char) (start : Nat) : decodeFrom start (encode l) = .ok l := by
  induction l generalizing start with
  | nil => rfl
  | cons c l ih =>
    have bytes : encode (c :: l) = encodeChar c ++ encode l := List.flatMap_cons
    rw [bytes, decodeFrom_encodeChar, ih]
    rfl

/-- The bytes of a text are read as that text. -/
theorem decode_encode (l : List Char) : decode (encode l) = .ok l := decodeFrom_encode l 0

/-! ## Nothing else is read as a text -/

theorem consChar_eq_ok_iff {n : Nat} {rest : Except Fault (List Char)} {l : List Char} :
    consChar n rest = .ok l ↔ ∃ tail, rest = .ok tail ∧ l = Char.ofNat n :: tail := by
  cases rest with
  | error fault => simp [consChar, Except.map]
  | ok tail => simp [consChar, Except.map, @eq_comm _ l]

theorem isTail_iff {n : Nat} : isTail n = true ↔ 0x80 ≤ n ∧ n ≤ 0xBF := by
  simp [isTail]

/-- The second byte of three: what it says is not a character of two bytes, nor a surrogate. -/
theorem second_of_three {a b : Nat} (first : 0xE0 ≤ a ∧ a ≤ 0xEF) (h : isSecond a b = true) :
    (0x80 ≤ b ∧ b ≤ 0xBF) ∧ (a = 0xE0 → 0xA0 ≤ b) ∧ (a = 0xED → b ≤ 0x9F) := by
  unfold isSecond isTail at h
  repeat' split at h
  all_goals simp only [Bool.and_eq_true, decide_eq_true_eq] at h; omega

/-- The second byte of four: what it says is not a character of three bytes, and code points end
at `U+10FFFF`. -/
theorem second_of_four {a b : Nat} (first : 0xF0 ≤ a ∧ a ≤ 0xF4) (h : isSecond a b = true) :
    (0x80 ≤ b ∧ b ≤ 0xBF) ∧ (a = 0xF0 → 0x90 ≤ b) ∧ (a = 0xF4 → b ≤ 0x8F) := by
  unfold isSecond isTail at h
  repeat' split at h
  all_goals simp only [Bool.and_eq_true, decide_eq_true_eq] at h; omega

theorem toNat_ofNat {n : Nat} (valid : n < 0xD800 ∨ (0xDFFF < n ∧ n < 0x110000)) :
    (Char.ofNat n).toNat = n := by
  rw [Char.ofNat, dif_pos valid]
  rfl

section Shapes

variable {a b c d : UInt8}

theorem ofNat_eq {n : Nat} (h : n = a.toNat) : UInt8.ofNat n = a := by
  rw [h, UInt8.ofNat_toNat]

theorem encodeChar_one (first : a.toNat < 0x80) : encodeChar (Char.ofNat a.toNat) = [a] := by
  rw [encodeChar, toNat_ofNat (by omega)]
  simp [first]

theorem encodeChar_two (first : 0xC2 ≤ a.toNat ∧ a.toNat ≤ 0xDF) (second : isTail b.toNat = true) :
    encodeChar (Char.ofNat ((a.toNat - 0xC0) * 64 + (b.toNat - 0x80))) = [a, b] := by
  rw [isTail_iff] at second
  rw [encodeChar, toNat_ofNat (by omega)]
  rw [if_neg (by omega), if_pos (by omega), ofNat_eq (a := a) (by omega),
    ofNat_eq (a := b) (by omega)]

theorem encodeChar_three (first : 0xE0 ≤ a.toNat ∧ a.toNat ≤ 0xEF)
    (second : isSecond a.toNat b.toNat = true) (third : isTail c.toNat = true) :
    encodeChar (Char.ofNat
      ((a.toNat - 0xE0) * 4096 + (b.toNat - 0x80) * 64 + (c.toNat - 0x80))) = [a, b, c] := by
  have range := second_of_three first second
  rw [isTail_iff] at third
  rw [encodeChar, toNat_ofNat (by omega)]
  rw [if_neg (by omega), if_neg (by omega), if_pos (by omega), ofNat_eq (a := a) (by omega),
    ofNat_eq (a := b) (by omega), ofNat_eq (a := c) (by omega)]

theorem encodeChar_four (first : 0xF0 ≤ a.toNat ∧ a.toNat ≤ 0xF4)
    (second : isSecond a.toNat b.toNat = true) (third : isTail c.toNat = true)
    (fourth : isTail d.toNat = true) :
    encodeChar (Char.ofNat ((a.toNat - 0xF0) * 262144 + (b.toNat - 0x80) * 4096 +
      (c.toNat - 0x80) * 64 + (d.toNat - 0x80))) = [a, b, c, d] := by
  have range := second_of_four first second
  rw [isTail_iff] at third fourth
  rw [encodeChar, toNat_ofNat (by omega)]
  rw [if_neg (by omega), if_neg (by omega), if_neg (by omega), ofNat_eq (a := a) (by omega),
    ofNat_eq (a := b) (by omega), ofNat_eq (a := c) (by omega), ofNat_eq (a := d) (by omega)]

end Shapes

/-- A character and what follows it are encoded as they were read. -/
theorem encode_of_consChar {n start : Nat} {bytes rest : List UInt8}
    (char : encodeChar (Char.ofNat n) = bytes)
    (later : ∀ l, decodeFrom start rest = .ok l → rest = encode l) (l : List Char)
    (h : consChar n (decodeFrom start rest) = .ok l) : bytes ++ rest = encode l := by
  obtain ⟨tail, read, rfl⟩ := consChar_eq_ok_iff.mp h
  rw [← char, later tail read]
  rfl

/-- What is decoded is the encoding of just one text. -/
theorem encode_of_decodeFrom (start : Nat) (bytes : List UInt8) :
    ∀ l, decodeFrom start bytes = .ok l → bytes = encode l := by
  fun_induction decodeFrom start bytes with
  | case1 =>
    rintro l ⟨⟩
    rfl
  | case2 start a rest lead first ih => exact encode_of_consChar (encodeChar_one first) ih
  | case4 start a lead _ first b rest next second ih =>
    exact encode_of_consChar (encodeChar_two (by simpa using first) second) ih
  | case8 start a lead _ _ first b next second c rest last third ih =>
    exact encode_of_consChar (encodeChar_three (by simpa using first) second third) ih
  | case14 start a lead _ _ _ first b next second c next' third d rest last fourth ih =>
    exact encode_of_consChar (encodeChar_four (by simpa using first) second third fourth) ih
  -- all the other bytes are refused
  | _ => rintro l ⟨⟩

/-- Bytes are read as a text exactly if they are the bytes of this text. -/
theorem decode_eq_ok_iff {bytes : List UInt8} {l : List Char} :
    decode bytes = .ok l ↔ bytes = encode l := by
  constructor
  · exact encode_of_decodeFrom 0 bytes l
  · rintro rfl
    exact decode_encode l

end RoomAudio.Text.Utf8
