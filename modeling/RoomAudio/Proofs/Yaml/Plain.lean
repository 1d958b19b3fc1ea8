import RoomAudio.Proofs.Yaml.Cursor
import RoomAudio.Yaml.Token.Plain

/-!
# Reading back plain scalars

A text that may be written plainly is read up to its end, wherever it stands in a block: in front
of the colon of a key, of the next line, or at the end of the document.

## Main definitions

* `Yaml.readPlain_text` — reading passes the characters of the text.
* `Yaml.plainFrom_colon`, `Yaml.plainFrom_follows` — reading stops behind it.
-/

namespace RoomAudio.Yaml

variable {indent : Int} {text spaces : List Char} {gap : Folding} {fresh : Bool} {m : Mark}

theorem plainFrom_nil : plainFrom false indent text gap fresh [] m =
    some ⟨text.reverse, ⟨[], m⟩, gap.broken⟩ := rfl

/-- A step over a character that is no carriage return, in a block. -/
theorem plainFrom_cons {c : Char} {rest : List Char} (h : c ≠ '\r') :
    plainFrom false indent text gap fresh (c :: rest) m =
      if isBreak c then plainFrom false indent text (gap.lineBreak c) true rest (m.newline 1)
      else if isSpacing c then
        if gap.broken && (m.column : Int) < indent && c == '\t' then none
        else plainFrom false indent text (gap.space c) true rest m.next
      else if fresh && ((gap.broken && (m.column : Int) < indent) ||
          (m.column == 0 && startsMarker (c :: rest)) || c == '#') then
        some ⟨text.reverse, ⟨c :: rest, m⟩, gap.broken⟩
      else if c == ':' && startsGap rest then some ⟨text.reverse, ⟨c :: rest, m⟩, gap.broken⟩
      else plainFrom false indent (c :: gap.join text) {} false rest m.next := by
  rw [plainFrom.eq_def]
  split
  · rename_i heq
    cases heq
  · rename_i heq
    cases heq
    exact absurd rfl h
  · rename_i heq
    cases heq
    simp

/-! ## The characters of the text -/

/-- What a plain text needs so that none of its characters ends it. -/
structure Unmarked (fresh : Bool) (l : List Char) : Prop where
  printable : ∀ c ∈ l, isPrintable c = true
  unbroken : ∀ c ∈ l, isBreak c = false
  colon : hasBeforeGap ':' l = false
  hash : hasNeighbours isGap (· == '#') l = false
  first : fresh = true → l.head? ≠ some '#'

theorem Unmarked.tail {c : Char} {l : List Char} (h : Unmarked fresh (c :: l)) :
    Unmarked (c == ' ') l where
  printable d mem := h.printable d (by simp [mem])
  unbroken d mem := h.unbroken d (by simp [mem])
  colon := by
    have colon := h.colon
    rw [hasBeforeGap, Bool.or_eq_false_iff] at colon
    exact colon.2
  hash := by
    cases l with
    | nil => rfl
    | cons d l =>
      have hash := h.hash
      rw [hasNeighbours, Bool.or_eq_false_iff] at hash
      exact hash.2
  first := by
    intro space head
    cases l with
    | nil => cases head
    | cons d l =>
      obtain rfl : d = '#' := by simpa using head
      obtain rfl : c = ' ' := by simpa using space
      have hash := h.hash
      rw [hasNeighbours, Bool.or_eq_false_iff] at hash
      exact absurd hash.1 (by decide)

/-- No gap follows a colon, whatever stands behind the text. -/
theorem Unmarked.not_startsGap {c : Char} {l : List Char} (h : Unmarked fresh (c :: l))
    (tail : List Char) : c = ':' → startsGap (l ++ tail) = false := by
  rintro rfl
  have colon := h.colon
  rw [hasBeforeGap, Bool.or_eq_false_iff] at colon
  cases l with
  | nil => exact absurd colon.1 (by decide)
  | cons d l => simpa [startsGap] using colon.1

/-- Reading passes the characters of a text. Spaces at its end are held back. -/
theorem plainFrom_text {l : List Char} (tail : List Char) (unmarked : Unmarked fresh l)
    (column : 0 < m.column) :
    ∃ text' spaces' fresh', spaces' ++ text' = l.reverse ++ (spaces ++ text) ∧
      ((l = [] → spaces = [] ∧ fresh = false) → l.getLast? ≠ some ' ' →
        spaces' = [] ∧ fresh' = false) ∧
      plainFrom false indent text { spaces } fresh (l ++ tail) m =
        plainFrom false indent text' { spaces := spaces' } fresh' tail (m.advance l.length) := by
  induction l generalizing text spaces fresh m with
  | nil => exact ⟨text, spaces, fresh, rfl, fun begun _ => begun rfl, rfl⟩
  | cons c l ih =>
    have printable := unmarked.printable c (by simp)
    have unbroken := unmarked.unbroken c (by simp)
    have start : 0 < m.next.column := Nat.succ_pos _
    rw [List.cons_append, plainFrom_cons (ne_return_of_isPrintable printable), unbroken,
      isSpacing_of_isPrintable printable, if_neg Bool.false_ne_true, List.length_cons,
      Nat.add_comm, ← Mark.advance_advance, ← Mark.next_eq_advance]
    by_cases space : c = ' '
    · subst space
      obtain ⟨text', spaces', fresh', same, ends, read⟩ :=
        @ih text (' ' :: spaces) _ _ unmarked.tail start
      refine ⟨text', spaces', fresh', by simp [same], fun _ last => ?_, ?_⟩
      · cases l with
        | nil => exact absurd rfl last
        | cons d l => exact ends (by simp) (by simpa using last)
      · simpa [Folding.space] using read
    · have other : (c == ' ') = false := by simpa using space
      obtain ⟨text', spaces', fresh', same, ends, read⟩ :=
        @ih (c :: (spaces ++ text)) [] _ _ unmarked.tail start
      rw [other] at ends read
      refine ⟨text', spaces', fresh', by simp [same], fun _ last => ?_, ?_⟩
      · refine ends (fun _ => ⟨rfl, rfl⟩) ?_
        cases l with
        | nil => simp
        | cons d l => simpa using last
      · have notHash : fresh = true → c ≠ '#' := by simpa using unmarked.first
        have inLine : m.column ≠ 0 := by omega
        rw [if_neg (by simp [other]), if_neg (by simpa [inLine] using notHash),
          if_neg (by simpa using unmarked.not_startsGap tail)]
        exact read

/-! ## Where reading stops -/

/-- A text that may be written plainly, with characters. -/
theorem unmarked_of_allowsPlain {l : List Char} (h : allowsPlain l = true) (fresh : Bool) :
    Unmarked fresh l ∧ l.getLast? ≠ some ' ' := by
  simp only [allowsPlain, hasOuterSpace, hasIndicator, Bool.and_eq_true, Bool.not_eq_true',
    Bool.or_eq_false_iff, List.all_eq_true, beq_eq_false_iff_ne] at h
  obtain ⟨⟨chars, -, last⟩, ⟨⟨-, colon⟩, hash⟩, first⟩ := h
  refine ⟨⟨fun c mem => (chars c mem).1, fun c mem => (chars c mem).2, colon, hash, ?_⟩, last⟩
  rintro - head
  cases l with
  | nil => cases head
  | cons c l =>
    obtain rfl : c = '#' := by simpa using head
    simp [isLeadingIndicator] at first

/-- A plain text begins like a token, and like no other one. -/
theorem starts_of_allowsPlain {c : Char} {l : List Char} (plain : allowsPlain (c :: l) = true)
    (tail : List Char) : StartsToken c ∧ isLeadingIndicator c = false ∧
      (isEntryIndicator c = true ∨ c = ':' → startsGap (l ++ tail) = false) := by
  obtain ⟨unmarked, -⟩ := unmarked_of_allowsPlain plain true
  have printable := unmarked.printable c (by simp)
  have unbroken := unmarked.unbroken c (by simp)
  simp only [allowsPlain, hasOuterSpace, hasIndicator, Bool.and_eq_true, Bool.not_eq_true',
    Bool.or_eq_false_iff] at plain
  obtain ⟨⟨-, noSpace, -⟩, -, leading, entry⟩ := plain
  refine ⟨⟨?_, by simpa using unmarked.first rfl, ?_⟩, leading, ?_⟩
  · rw [isGap, unbroken, isSpacing_of_isPrintable printable, Bool.or_false]
    simpa using noSpace
  · rintro rfl
    exact absurd printable (by decide)
  · rintro (isEntry | rfl)
    · rw [isEntry, Bool.true_and] at entry
      cases l with
      | nil => exact absurd entry (by decide)
      | cons d l => exact entry
    · exact unmarked.not_startsGap tail rfl

/-- The text has been read, and what stands behind it comes next. -/
theorem readPlain_text {l : List Char} (tail : List Char) (plain : allowsPlain l = true)
    (some : l ≠ []) (noMarker : m.column = 0 → startsMarker (l ++ tail) = false) :
    readPlain false indent ⟨l ++ tail, m⟩ =
      plainFrom false indent l.reverse {} false tail (m.advance l.length) := by
  obtain ⟨unmarked, last⟩ := unmarked_of_allowsPlain plain true
  obtain ⟨c, l, rfl⟩ := List.exists_cons_of_ne_nil some
  have printable := unmarked.printable c (by simp)
  have unbroken := unmarked.unbroken c (by simp)
  obtain ⟨⟨noGap, notHash, -⟩, -⟩ := starts_of_allowsPlain plain []
  have notSpace : (c == ' ') = false := by simpa using (ne_of_not_isGap noGap).1
  have rest := unmarked.tail
  rw [notSpace] at rest
  obtain ⟨text', spaces', fresh', same, ends, read⟩ :=
    @plainFrom_text indent [c] [] false m.next l tail rest (Nat.succ_pos _)
  obtain ⟨rfl, rfl⟩ := ends (fun _ => ⟨rfl, rfl⟩) <| by
    cases l with
    | nil => simp
    | cons d l => simpa using last
  obtain rfl : text' = (c :: l).reverse := by simpa using same
  rw [readPlain, List.cons_append, plainFrom_cons (ne_return_of_isPrintable printable), unbroken,
    isSpacing_of_isPrintable printable, notSpace, if_neg Bool.false_ne_true,
    if_neg Bool.false_ne_true, if_neg (by simpa [notHash] using noMarker),
    if_neg (by simpa using unmarked.not_startsGap tail), List.length_cons, Nat.add_comm,
    ← Mark.advance_advance, ← Mark.next_eq_advance]
  exact read

/-- In front of the colon of a key. -/
theorem plainFrom_colon {rest : List Char} (gap : startsGap rest = true) :
    plainFrom false indent text {} false (':' :: rest) m =
      some ⟨text.reverse, ⟨':' :: rest, m⟩, false⟩ := by
  rw [plainFrom_cons (by decide), if_neg (by decide), if_neg (by decide), if_neg (by simp),
    if_pos (by simpa using gap)]

theorem plainFrom_indentation (k : Nat) {rest : List Char} (broken : gap.broken = true) :
    plainFrom false indent text gap true (indentation k ++ rest) m =
      plainFrom false indent text gap true rest (m.advance k) := by
  induction k generalizing m with
  | zero => rfl
  | succ k ih =>
    have step : indentation (k + 1) ++ rest = ' ' :: (indentation k ++ rest) := rfl
    rw [step, plainFrom_cons (by decide), if_neg (by decide), if_pos (by decide),
      if_neg (by simp), Folding.space, if_pos broken, ih, Mark.next_eq_advance,
      Mark.advance_advance, Nat.add_comm]

/-- In front of the next line, unless it is indented as deep as the text. -/
theorem plainFrom_newline {k : Nat} {c : Char} {rest : List Char} (column : (k : Int) < indent)
    (starts : StartsToken c) :
    plainFrom false indent text {} false ('\n' :: indentation k ++ c :: rest) m =
      some ⟨text.reverse, ⟨c :: rest, (m.newline 1).advance k⟩, true⟩ := by
  obtain ⟨noSpace, -, -, noReturn⟩ := ne_of_not_isGap starts.1
  rw [List.cons_append, plainFrom_cons (by decide), if_pos (by decide),
    plainFrom_indentation k rfl, plainFrom_cons noReturn,
    if_neg (by simp [not_isBreak_of_not_isGap starts.1]),
    if_neg (by simp [not_isSpacing_of_not_isGap starts.1]), if_pos]
  · rfl
  · simp [Folding.lineBreak, column]

/-- Behind the text the reader comes to the next line, or to the end of the document. -/
theorem plainFrom_follows {n : Nat} {next : List Char} (follows : Follows n next)
    (shallow : (n : Int) < indent) : ∃ c broken, Passed m.line next c ∧
      (next ≠ [] → broken = true) ∧
      plainFrom false indent text {} false (ahead ['\n'] next) m =
        some ⟨text.reverse, c, broken⟩ := by
  cases follows with
  | ended => exact ⟨_, false, .ended m, fun some => absurd rfl some, plainFrom_nil⟩
  | @token k c rest column starts =>
    have later : m.line < (m.newline 1).line := Nat.lt_succ_self _
    refine ⟨_, true, .token starts rfl later, fun _ => rfl, ?_⟩
    rw [ahead_of_ne_nil (by simp)]
    exact plainFrom_newline (by omega) starts

end RoomAudio.Yaml
