import RoomAudio.Proofs.Json.Quoted
import RoomAudio.Proofs.Yaml.Cursor
import RoomAudio.Yaml.Token.Quoted

/-!
# Reading back quoted scalars

What is written between quotes is read as the text it was written for. Between single quotes the
line breaks of the text are kept because none of them is a line feed; between double quotes there
are none.

## Main definitions

* `Yaml.readSingleQuoted_text`, `Yaml.readDoubleQuoted_text` — quoted texts are read back.
-/

namespace RoomAudio.Yaml

@[simp] theorem Folding.broken_lineBreak (gap : Folding) (c : Char) :
    (gap.lineBreak c).broken = true := by
  cases b : gap.broken <;> simp [lineBreak, b]

/-! ## Single quotes -/

section Single

variable {text : List Char} {gap : Folding} {m : Mark}

theorem singleQuotedFrom_cons {c : Char} {rest : List Char} (noReturn : c ≠ '\r')
    (noQuote : c ≠ '\'') : singleQuotedFrom text gap (c :: rest) m =
      if isBreak c then singleQuotedFrom text (gap.lineBreak c) rest (m.newline 1)
      else if isSpacing c then singleQuotedFrom text (gap.space c) rest m.next
      else if m.column == 0 && startsMarker (c :: rest) then none
      else singleQuotedFrom (c :: gap.join text) {} rest m.next := by
  rw [singleQuotedFrom.eq_def]
  split
  · rename_i heq
    cases heq
  · rename_i heq
    cases heq
    exact absurd rfl noReturn
  · rename_i heq
    cases heq
    exact absurd rfl noQuote
  · rename_i heq
    cases heq
    simp [noQuote]

theorem singleQuotedFrom_close {rest : List Char} (last : rest.head? ≠ some '\'') :
    singleQuotedFrom text gap ('\'' :: rest) m =
      some ((gap.join text).reverse, ⟨rest, m.next⟩) := by
  rw [singleQuotedFrom.eq_def]
  split
  · rename_i heq
    cases heq
  · rename_i heq
    cases heq
  · rename_i heq
    cases heq
    exact absurd rfl last
  · rename_i heq
    cases heq
    rw [if_neg (by decide), if_neg (by decide), if_pos (by decide)]

theorem singleQuotedFrom_indentation (k : Nat) {rest : List Char} (broken : gap.broken = true) :
    singleQuotedFrom text gap (indentation k ++ rest) m =
      singleQuotedFrom text gap rest (m.advance k) := by
  induction k generalizing m with
  | zero => rfl
  | succ k ih =>
    have step : indentation (k + 1) ++ rest = ' ' :: (indentation k ++ rest) := rfl
    rw [step, singleQuotedFrom_cons (by decide) (by decide), if_neg (by decide),
      if_pos (by decide), Folding.space, if_pos broken, ih, Mark.next_eq_advance,
      Mark.advance_advance, Nat.add_comm]

/-- The indentation of a new line is passed without a trace. -/
theorem singleQuotedFrom_enter {indent : Nat} (deep : 0 < indent)
    (inLine : gap.broken = false → 0 < m.column) (rest : List Char) :
    ∃ here : Mark, here.line = m.line ∧ 0 < here.column ∧
      singleQuotedFrom text gap ((if gap.broken then indentation indent else []) ++ rest) m =
        singleQuotedFrom text gap rest here := by
  cases b : gap.broken with
  | false => exact ⟨m, rfl, inLine b, rfl⟩
  | true => exact ⟨m.advance indent, rfl, by simp; omega, singleQuotedFrom_indentation indent b⟩

/-- A text that keeps its spaces and line breaks when reading goes on with it after the gap. -/
structure Keeps (gap : Folding) (l : List Char) : Prop where
  printable : ∀ c ∈ l, isPrintable c = true
  noFeed : '\n' ∉ l
  breakSpace : hasNeighbours isBreak (· == ' ') l = false
  spaceBreak : hasNeighbours (· == ' ') isBreak l = false
  broken : gap.broken = true → (∃ c, gap.first = some c ∧ c ≠ '\n') ∧ l.head? ≠ some ' '
  unbroken : gap.broken = false → gap.spaces ≠ [] → ∀ c, l.head? = some c → isBreak c = false

variable {c : Char} {l : List Char}

theorem hasNeighbours_tail {p q : Char → Bool} (h : hasNeighbours p q (c :: l) = false) :
    hasNeighbours p q l = false := by
  cases l with
  | nil => rfl
  | cons d l =>
    rw [hasNeighbours, Bool.or_eq_false_iff] at h
    exact h.2

theorem not_of_hasNeighbours {p q : Char → Bool} (h : hasNeighbours p q (c :: l) = false)
    (first : p c = true) : ∀ d, l.head? = some d → q d = false := by
  intro d head
  cases l with
  | nil => cases head
  | cons e l =>
    cases head
    rw [hasNeighbours, Bool.or_eq_false_iff] at h
    simpa [first] using h.1

namespace Keeps

theorem tail {next : Folding} (h : Keeps gap (c :: l))
    (broken : next.broken = true → (∃ c, next.first = some c ∧ c ≠ '\n') ∧ isBreak c = true)
    (unbroken : next.broken = false → next.spaces ≠ [] → c = ' ') : Keeps next l where
  printable d mem := h.printable d (by simp [mem])
  noFeed mem := h.noFeed (by simp [mem])
  breakSpace := hasNeighbours_tail h.breakSpace
  spaceBreak := hasNeighbours_tail h.spaceBreak
  broken b := by
    refine ⟨(broken b).1, fun head => ?_⟩
    exact absurd (not_of_hasNeighbours h.breakSpace (broken b).2 ' ' head) (by decide)
  unbroken b some := by
    obtain rfl := unbroken b some
    exact not_of_hasNeighbours h.spaceBreak rfl

theorem lineBreak (h : Keeps gap (c :: l)) (break_ : isBreak c = true) :
    Keeps (gap.lineBreak c) l := by
  have value := breakValue_of_isPrintable (h.printable c (by simp)) break_
  have feed : c ≠ '\n' := by
    rintro rfl
    exact h.noFeed (by simp)
  refine h.tail (fun _ => ⟨?_, break_⟩) (by simp)
  cases b : gap.broken with
  | false => simpa [Folding.lineBreak, b, value] using feed
  | true => simpa [Folding.lineBreak, b] using (h.broken b).1

/-- A line break of the text is read as it is. -/
theorem join_lineBreak (h : Keeps gap (c :: l)) (break_ : isBreak c = true) :
    (gap.lineBreak c).join text = c :: gap.join text := by
  have value := breakValue_of_isPrintable (h.printable c (by simp)) break_
  have feed : c ≠ '\n' := by
    rintro rfl
    exact h.noFeed (by simp)
  cases b : gap.broken with
  | false =>
    have empty : gap.spaces = [] := by
      by_cases empty : gap.spaces = []
      · exact empty
      · have noBreak := h.unbroken b empty c rfl
        rw [break_] at noBreak
        cases noBreak
    simp [Folding.lineBreak, Folding.join, b, empty, value]
  | true =>
    obtain ⟨⟨d, first, notFeed⟩, -⟩ := h.broken b
    simp [Folding.lineBreak, Folding.join, b, first, value]

theorem join_space (h : Keeps gap (' ' :: l)) :
    gap.broken = false ∧ (gap.space ' ').join text = ' ' :: gap.join text := by
  have b : gap.broken = false := by
    cases b : gap.broken with
    | false => rfl
    | true => exact absurd rfl (h.broken b).2
  exact ⟨b, by simp [Folding.space, Folding.join, b]⟩

end Keeps

/-- What is written between single quotes is read back. The gap of the reader is broken exactly
where the writer has begun a new line. -/
theorem singleQuotedFrom_text {indent : Nat} {tail : List Char} (keeps : Keeps gap l)
    (deep : 0 < indent) (inLine : gap.broken = false → 0 < m.column)
    (last : tail.head? ≠ some '\'') :
    ∃ after : Mark, m.line ≤ after.line ∧
      singleQuotedFrom text gap (writeSingleQuotedFrom indent gap.broken l ++ tail) m =
        some ((gap.join text).reverse ++ l, ⟨tail, after⟩) := by
  induction l generalizing text gap m with
  | nil =>
    rw [writeSingleQuotedFrom, List.append_assoc]
    obtain ⟨here, line, -, entered⟩ := singleQuotedFrom_enter deep inLine (['\''] ++ tail)
    refine ⟨here.next, Nat.le_of_eq line.symm, ?_⟩
    rw [entered, List.singleton_append, singleQuotedFrom_close last, List.append_nil]
  | cons c l ih =>
    have printable := keeps.printable c (by simp)
    have noReturn := ne_return_of_isPrintable printable
    rw [writeSingleQuotedFrom]
    by_cases break_ : isBreak c = true
    · have noQuote : c ≠ '\'' := by
        rintro rfl
        exact absurd break_ (by decide)
      have next : Keeps (gap.lineBreak c) l := keeps.lineBreak break_
      obtain ⟨after, line, read⟩ := @ih text _ (m.newline 1) next (by simp)
      refine ⟨after, Nat.le_of_succ_le line, ?_⟩
      rw [Folding.broken_lineBreak] at read
      rw [if_pos break_, List.cons_append, singleQuotedFrom_cons noReturn noQuote, if_pos break_,
        read, keeps.join_lineBreak break_]
      simp
    · rw [if_neg break_]
      by_cases space : c = ' '
      · subst space
        obtain ⟨unbroken, join⟩ := @Keeps.join_space text gap l keeps
        have same : (gap.space ' ').broken = false := by simp [Folding.space, unbroken]
        have next : Keeps (gap.space ' ') l := by
          refine keeps.tail (by simp [same]) fun _ _ => rfl
        obtain ⟨after, line, read⟩ := @ih text _ m.next next fun _ => Nat.succ_pos _
        refine ⟨after, line, ?_⟩
        rw [same, join] at read
        rw [if_pos rfl, unbroken, List.cons_append,
          singleQuotedFrom_cons (by decide) (by decide), if_neg break_, if_pos (by decide), read]
        simp
      · have next : Keeps {} l := keeps.tail (by simp) (by simp)
        rw [if_neg space, List.append_assoc, List.append_assoc]
        obtain ⟨here, line, column, entered⟩ := singleQuotedFrom_enter deep inLine _
        rw [entered]
        by_cases quote : c = '\''
        · obtain ⟨after, line', read⟩ :=
            @ih ('\'' :: gap.join text) _ (here.advance 2) next fun _ => Nat.succ_pos _
          refine ⟨after, line ▸ line', ?_⟩
          subst quote
          exact read.trans (by simp [Folding.join])
        · obtain ⟨after, line', read⟩ :=
            @ih (c :: gap.join text) _ here.next next fun _ => Nat.succ_pos _
          refine ⟨after, line ▸ line', ?_⟩
          rw [if_neg quote, List.singleton_append, singleQuotedFrom_cons noReturn quote,
            if_neg break_, isSpacing_of_isPrintable printable, if_neg (by simpa using space),
            if_neg (by simp; omega)]
          exact read.trans (by simp [Folding.join])

/-- A text between single quotes is read back. -/
theorem readSingleQuoted_text {indent : Nat} {tail : List Char}
    (quoted : allowsSingleQuoted l = true) (noFeed : '\n' ∉ l) (deep : 0 < indent)
    (column : 0 < m.column) (last : tail.head? ≠ some '\'') :
    ∃ after : Mark, m.line ≤ after.line ∧
      readSingleQuoted ⟨writeSingleQuotedFrom indent false l ++ tail, m⟩ =
        some (l, ⟨tail, after⟩) := by
  simp only [allowsSingleQuoted, Bool.and_eq_true, Bool.not_eq_true', List.all_eq_true] at quoted
  obtain ⟨⟨printable, breakSpace⟩, spaceBreak⟩ := quoted
  have keeps : Keeps {} l := ⟨printable, noFeed, breakSpace, spaceBreak, by simp, by simp⟩
  exact singleQuotedFrom_text keeps deep (fun _ => column) last

end Single

/-! ## Double quotes -/

section Double

variable {text : List Char} {gap : Folding} {m : Mark} {c : Char} {rest : List Char}

theorem doubleQuotedFrom_cons {state : EscapeState} (noReturn : c ≠ '\r') :
    doubleQuotedFrom text gap state (c :: rest) m =
      match state with
      | .code missing value =>
        match Json.hexValue? c with
        | none => none
        | some digit =>
          if 1 < missing then
            doubleQuotedFrom text gap (.code (missing - 1) (16 * value + digit)) rest m.next
          else
            match charOfCode? (16 * value + digit) with
            | none => none
            | some c => doubleQuotedFrom (c :: text) {} .outside rest m.next
      | .started =>
        if isBreak c then doubleQuotedFrom text .escaped .outside rest (m.newline 1)
        else
          match codeLength? c with
          | some n => doubleQuotedFrom text gap (.code n 0) rest m.next
          | none =>
            match escapedChar? c with
            | none => none
            | some c => doubleQuotedFrom (c :: text) {} .outside rest m.next
      | .outside =>
        if isBreak c then doubleQuotedFrom text (gap.lineBreak c) .outside rest (m.newline 1)
        else if isSpacing c then doubleQuotedFrom text (gap.space c) .outside rest m.next
        else if c == '"' then some ((gap.join text).reverse, ⟨rest, m.next⟩)
        else if m.column == 0 && startsMarker (c :: rest) then none
        else if c == '\\' then doubleQuotedFrom (gap.join text) {} .started rest m.next
        else doubleQuotedFrom (c :: gap.join text) {} .outside rest m.next := by
  rw [doubleQuotedFrom.eq_def]
  split
  · rename_i heq
    cases heq
  · rename_i heq
    cases heq
    exact absurd rfl noReturn
  · rename_i heq
    cases heq
    rfl

theorem hexValue?_toUpper_hexDigit :
    ∀ n < 16, Json.hexValue? (Json.hexDigit n).toUpper = some n := by decide

theorem isPrintable_toUpper_hexDigit : ∀ n < 16,
    isPrintable (Json.hexDigit n).toUpper = true ∧ isBreak (Json.hexDigit n).toUpper = false := by
  decide

theorem length_hexDigits (width n : Nat) : (hexDigits width n).length = width := by
  induction width generalizing n with
  | zero => rfl
  | succ width ih => simp [hexDigits, ih]

/-- Digits of a code that are not the last ones are added to its value. -/
theorem doubleQuotedFrom_digits {width n value missing : Nat} (more : 0 < missing)
    (small : n < Nat.pow 16 width) :
    doubleQuotedFrom text gap (.code (missing + width) value) (hexDigits width n ++ rest) m =
      doubleQuotedFrom text gap (.code missing (Nat.pow 16 width * value + n)) rest
        (m.advance width) := by
  induction width generalizing n missing rest with
  | zero =>
    obtain rfl : n = 0 := Nat.lt_one_iff.mp small
    simp [hexDigits]
  | succ width ih =>
    have digit : n % 16 < 16 := Nat.mod_lt _ (by decide)
    have higher : n / 16 < Nat.pow 16 width := (Nat.div_lt_iff_lt_mul (by decide)).mpr small
    rw [hexDigits, List.append_assoc, List.singleton_append, Nat.add_comm width 1,
      ← Nat.add_assoc, ih (Nat.succ_pos _) higher,
      doubleQuotedFrom_cons (ne_return_of_isPrintable (isPrintable_toUpper_hexDigit _ digit).1)]
    simp only [hexValue?_toUpper_hexDigit _ digit]
    rw [if_pos (by omega), Nat.succ_sub_one, Mark.next_eq_advance, Mark.advance_advance,
      Nat.add_comm width 1]
    congr 2
    have pow : Nat.pow 16 (1 + width) = Nat.pow 16 width * 16 := by
      rw [Nat.add_comm 1 width]
      rfl
    have split := Nat.div_add_mod n 16
    rw [pow, Nat.mul_right_comm]
    omega

theorem charOfCode?_toNat (c : Char) : charOfCode? c.toNat = some c := by
  have valid := c.valid
  have same : c.val.toNat = c.toNat := rfl
  rw [charOfCode?, if_neg, Char.ofNat_toNat]
  rw [UInt32.isValidChar, Nat.isValidChar, same] at valid
  omega

/-- A character is read back from its code. -/
theorem doubleQuotedFrom_code {width : Nat} (c : Char)
    (small : c.toNat < Nat.pow 16 (width + 1)) :
    doubleQuotedFrom text {} (.code (width + 1) 0) (hexDigits (width + 1) c.toNat ++ rest) m =
      doubleQuotedFrom (c :: text) {} .outside rest (m.advance (width + 1)) := by
  have digit : c.toNat % 16 < 16 := Nat.mod_lt _ (by decide)
  have higher : c.toNat / 16 < Nat.pow 16 width := (Nat.div_lt_iff_lt_mul (by decide)).mpr small
  rw [hexDigits, List.append_assoc, List.singleton_append, Nat.add_comm width 1,
    doubleQuotedFrom_digits (by decide) higher,
    doubleQuotedFrom_cons (ne_return_of_isPrintable (isPrintable_toUpper_hexDigit _ digit).1)]
  simp only [hexValue?_toUpper_hexDigit _ digit]
  have value : 16 * (Nat.pow 16 width * 0 + c.toNat / 16) + c.toNat % 16 = c.toNat := by omega
  rw [if_neg (by decide), value, charOfCode?_toNat, Mark.next_eq_advance, Mark.advance_advance,
    Nat.add_comm width 1]

/-- The two kinds of escape sequence: a letter that stands for the character, or a letter that
announces its code. -/
inductive Escaped (c : Char) : List Char → Prop where
  | letter {letter : Char} (printable : isPrintable letter = true)
      (unbroken : isBreak letter = false) (noCode : codeLength? letter = none)
      (stands : escapedChar? letter = some c) :
      Escaped c ['\\', letter]
  | code {letter : Char} {width : Nat} (printable : isPrintable letter = true)
      (unbroken : isBreak letter = false) (length : codeLength? letter = some (width + 1))
      (small : c.toNat < Nat.pow 16 (width + 1)) :
      Escaped c ('\\' :: letter :: hexDigits (width + 1) c.toNat)

theorem Escaped.ite {p : Prop} [Decidable p] {a b : List Char} (yes : p → Escaped c ('\\' :: a))
    (no : Escaped c ('\\' :: b)) : Escaped c ('\\' :: if p then a else b) := by
  split
  · exact yes ‹p›
  · exact no

theorem escaped_escape (c : Char) : Escaped c (escape c) := by
  have named {code : Nat} (h : c.toNat = code) : c = Char.ofNat code := by
    rw [← h, Char.ofNat_toNat]
  have lettered {letter d : Char} (same : c = d)
      (h : isPrintable letter = true ∧ isBreak letter = false ∧ codeLength? letter = none ∧
        escapedChar? letter = some d) : Escaped c ['\\', letter] := by
    obtain rfl := same
    exact .letter h.1 h.2.1 h.2.2.1 h.2.2.2
  have coded {letter : Char} {width : Nat} (small : c.toNat < Nat.pow 16 (width + 1))
      (h : isPrintable letter = true ∧ isBreak letter = false ∧
        codeLength? letter = some (width + 1)) :
      Escaped c ('\\' :: letter :: hexDigits (width + 1) c.toNat) :=
    .code h.1 h.2.1 h.2.2 small
  have large : c.toNat < Nat.pow 16 (7 + 1) := c.val.toNat_lt
  rw [escape]
  iterate 9 refine .ite (fun code => lettered (named code) (by decide)) ?_
  refine .ite (fun same => lettered same (by decide)) ?_
  refine .ite (fun same => lettered same (by decide)) ?_
  iterate 3 refine .ite (fun code => lettered (named code) (by decide)) ?_
  refine .ite (fun small => coded (Nat.lt_succ_of_le small) (by decide)) ?_
  refine .ite (fun small => coded (Nat.lt_succ_of_le small) (by decide)) ?_
  exact coded large (by decide)

/-- An escape sequence is read as the character it was written for. -/
theorem doubleQuotedFrom_escaped {written spaces : List Char} (escaped : Escaped c written)
    (column : 0 < m.column) :
    doubleQuotedFrom text { spaces } .outside (written ++ rest) m =
      doubleQuotedFrom (c :: (spaces ++ text)) {} .outside rest (m.advance written.length) := by
  have started (after : List Char) :
      doubleQuotedFrom text { spaces } .outside ('\\' :: after) m =
        doubleQuotedFrom (spaces ++ text) {} .started after m.next := by
    rw [doubleQuotedFrom_cons (by decide)]
    dsimp only
    rw [if_neg (by decide), if_neg (by decide), if_neg (by decide),
      if_neg (by simp; omega), if_pos (by decide)]
    rfl
  cases escaped with
  | letter printable unbroken noCode stands =>
    rw [List.cons_append, started, List.cons_append,
      doubleQuotedFrom_cons (ne_return_of_isPrintable printable)]
    simp only [unbroken, noCode, stands, Bool.false_eq_true, if_false]
    rfl
  | @code letter width printable unbroken length small =>
    rw [List.cons_append, started, List.cons_append,
      doubleQuotedFrom_cons (ne_return_of_isPrintable printable)]
    simp only [unbroken, length, Bool.false_eq_true, if_false]
    rw [doubleQuotedFrom_code c small, Mark.next_eq_advance, Mark.next_eq_advance,
      Mark.advance_advance, Mark.advance_advance, List.length_cons, List.length_cons,
      length_hexDigits, Nat.add_comm 1 (width + 1), Nat.add_comm 1]

/-- What is written for a character is read as that character. Spaces are held back. -/
theorem doubleQuotedFrom_char {spaces : List Char} (column : 0 < m.column) (c : Char) :
    ∃ text' spaces', spaces' ++ text' = c :: (spaces ++ text) ∧
      ∀ rest, doubleQuotedFrom text { spaces } .outside (writeDoubleQuotedChar c ++ rest) m =
        doubleQuotedFrom text' { spaces := spaces' } .outside rest
          (m.advance (writeDoubleQuotedChar c).length) := by
  rw [writeDoubleQuotedChar]
  split
  · exact ⟨c :: (spaces ++ text), [], rfl, fun rest =>
      doubleQuotedFrom_escaped (escaped_escape c) column⟩
  · rename_i same
    simp only [Bool.or_eq_true, Bool.not_eq_true', decide_eq_true_eq, not_or,
      Bool.not_eq_false, Bool.not_eq_true] at same
    obtain ⟨⟨⟨printable, unbroken⟩, noQuote⟩, noBackslash⟩ := same
    have first (rest : List Char) := @doubleQuotedFrom_cons text { spaces } m c rest .outside
      (ne_return_of_isPrintable printable)
    simp only [unbroken, isSpacing_of_isPrintable printable, Bool.false_eq_true, if_false] at first
    by_cases space : c = ' '
    · refine ⟨text, ' ' :: spaces, by simp [space], fun rest => ?_⟩
      rw [List.singleton_append, first, if_pos (by simpa using space), space]
      rfl
    · refine ⟨c :: (spaces ++ text), [], rfl, fun rest => ?_⟩
      rw [List.singleton_append, first, if_neg (by simpa using space),
        if_neg (by simpa using noQuote), if_neg (by simp; omega),
        if_neg (by simpa using noBackslash)]
      rfl

/-- What is written between double quotes is read back. -/
theorem doubleQuotedFrom_text {spaces : List Char} (l : List Char) (column : 0 < m.column) :
    ∃ after : Mark, m.line ≤ after.line ∧
      doubleQuotedFrom text { spaces } .outside (l.flatMap writeDoubleQuotedChar ++ '"' :: rest) m =
        some ((spaces ++ text).reverse ++ l, ⟨rest, after⟩) := by
  induction l generalizing text spaces m with
  | nil =>
    refine ⟨m.next, Nat.le_refl _, ?_⟩
    rw [List.flatMap_nil, List.nil_append, doubleQuotedFrom_cons (by decide)]
    dsimp only
    rw [if_neg (by decide), if_neg (by decide), if_pos (by decide), List.append_nil]
    rfl
  | cons c l ih =>
    obtain ⟨text', spaces', same, first⟩ := @doubleQuotedFrom_char text m spaces column c
    obtain ⟨after, line, read⟩ := @ih text' (m.advance (writeDoubleQuotedChar c).length) spaces'
      (by simp; omega)
    refine ⟨after, line, ?_⟩
    rw [List.flatMap_cons, List.append_assoc, first, read, same]
    simp

/-- A text between double quotes is read back. -/
theorem readDoubleQuoted_text (l : List Char) (column : 0 < m.column) :
    ∃ after : Mark, m.line ≤ after.line ∧
      readDoubleQuoted ⟨l.flatMap writeDoubleQuotedChar ++ '"' :: rest, m⟩ =
        some (l, ⟨rest, after⟩) :=
  doubleQuotedFrom_text l column

end Double

end RoomAudio.Yaml
