import RoomAudio.Duration
import RoomAudio.Proofs.Text.Blank

/-!
# The notation of durations

Durations are read from left to right, segment by segment, and every segment takes what it can get.
Next to the reader stands the relation between segments and the texts that write them, which says
nothing about an order of reading. The two agree: a text has at most one division into segments,
and the reader finds it.

## Main definitions

* `Numeral`, `TimeUnit.names` — the ways to write a number and a unit.
* `Segment.WrittenAs`, `WrittenAs` — the texts that write a segment and a list of segments.
* `segments?_eq_some_iff` — the reader agrees with this relation.
* `IsDuration` — the texts that are durations, up to blank ends.
* `parse_accepts_notation` — what the reader answers to every text.
-/

namespace RoomAudio.Duration

/-! ## The notation -/

/-- ASCII digits and nothing else. -/
def AllDigits (l : List Char) : Prop := ∀ c ∈ l, c.isDigit = true

/-- The texts that write a number: digits in front of the point, digits behind it, and the whole
text. There may be no point, and one side of the point may be empty. -/
inductive Numeral : List Char → List Char → List Char → Prop
  | whole {whole : List Char} (some : whole ≠ []) (digits : AllDigits whole) :
      Numeral whole [] whole
  | point {whole fraction : List Char} (some : whole ≠ [] ∨ fraction ≠ [])
      (before : AllDigits whole) (behind : AllDigits fraction) :
      Numeral whole fraction (whole ++ '.' :: fraction)

def TimeUnit.names : TimeUnit → List (List Char)
  | .nanosecond => [['n', 's']]
  | .microsecond => [['u', 's'], ['\u00B5', 's'], ['\u03BC', 's']]
  | .millisecond => [['m', 's']]
  | .second => [['s']]
  | .minute => [['m']]
  | .hour => [['h']]

/-- A segment is written as its number, directly followed by its unit. -/
inductive Segment.WrittenAs (s : Segment) : List Char → Prop
  | intro {number name : List Char} (numeral : Numeral s.whole s.fraction number)
      (unit : name ∈ s.unit.names) : s.WrittenAs (number ++ name)

/-- Segments are written one directly after the other. -/
inductive WrittenAs : List Segment → List Char → Prop
  | nil : WrittenAs [] []
  | cons {s : Segment} {segments : List Segment} {text rest : List Char} (first : s.WrittenAs text)
      (others : WrittenAs segments rest) : WrittenAs (s :: segments) (text ++ rest)

/-- A text without blank ends is a duration: a bare zero, or one or more segments. -/
def IsDuration (l : List Char) : Prop :=
  l = ['0'] ∨ ∃ segments, segments ≠ [] ∧ WrittenAs segments l

/-! ## What is read is written -/

theorem allDigits_takeWhile (l : List Char) : AllDigits (l.takeWhile Char.isDigit) :=
  fun _ mem => List.mem_takeWhile_imp mem

/-- What is read as a number writes one. -/
theorem numeral_of_readNumber {l whole fraction rest : List Char}
    (h : readNumber l = some (whole, fraction, rest)) :
    ∃ number, Numeral whole fraction number ∧ l = number ++ rest := by
  have parts := List.takeWhile_append_dropWhile (p := Char.isDigit) (l := l)
  unfold readNumber at h
  dsimp only at h
  split at h
  · rename_i tail point
    rw [point] at parts
    split at h
    · cases h
    · rename_i some
      cases h
      have given : l.takeWhile Char.isDigit ≠ [] ∨ tail.takeWhile Char.isDigit ≠ [] := by grind
      refine ⟨_, .point given (allDigits_takeWhile _) (allDigits_takeWhile _), ?_⟩
      rw [List.append_assoc, List.cons_append, List.takeWhile_append_dropWhile, parts]
  · rename_i tail _
    split at h
    · cases h
    · rename_i some
      cases h
      exact ⟨_, .whole (by simpa using some) (allDigits_takeWhile _), parts.symm⟩

/-- What is read as a unit is the name of one. -/
theorem name_of_read {l rest : List Char} {unit : TimeUnit}
    (h : TimeUnit.read l = some (unit, rest)) : ∃ name ∈ unit.names, l = name ++ rest := by
  unfold TimeUnit.read at h
  split at h <;> cases h <;> simp [TimeUnit.names]

theorem Segment.writtenAs_of_read {l rest : List Char} {s : Segment}
    (h : Segment.read l = some (s, rest)) : ∃ text, s.WrittenAs text ∧ l = text ++ rest := by
  simp only [Segment.read, Option.bind_eq_bind, Option.bind_eq_some_iff, Option.pure_def,
    Option.some.injEq, Prod.mk.injEq] at h
  obtain ⟨⟨whole, fraction, behind⟩, number, ⟨unit, rest'⟩, named, rfl, rfl⟩ := h
  obtain ⟨text, numeral, rfl⟩ := numeral_of_readNumber number
  obtain ⟨name, mem, rfl⟩ := name_of_read named
  exact ⟨text ++ name, .intro numeral mem, by simp⟩

/-- A text that is cut into segments is made up of them. -/
theorem writtenAs_of_segmentsUpTo {limit : Nat} {l : List Char} {segments : List Segment}
    (h : segmentsUpTo limit l = some segments) : WrittenAs segments l := by
  fun_induction segmentsUpTo limit l generalizing segments with
  | case1 =>
    cases h
    exact .nil
  | case2 => cases h
  | case3 limit c l ih =>
    simp only [Option.bind_eq_bind, Option.bind_eq_some_iff, Option.pure_def,
      Option.some.injEq] at h
    obtain ⟨⟨s, rest⟩, read, others, tail, rfl⟩ := h
    obtain ⟨text, first, split⟩ := Segment.writtenAs_of_read read
    rw [split]
    exact .cons first (ih rest tail)

/-! ## What is written is read -/

/-- What a number, a unit or a segment at the front of a text cannot be continued by. -/
def Stops (stop : Char → Bool) (rest : List Char) : Prop := ∀ c ∈ rest.head?, stop c = true

/-- Digits are read up to something else. -/
theorem takeWhile_digits_append {digits rest : List Char} (h : AllDigits digits)
    (stops : Stops (!·.isDigit) rest) :
    (digits ++ rest).takeWhile Char.isDigit = digits ∧
      (digits ++ rest).dropWhile Char.isDigit = rest := by
  have none : rest.takeWhile Char.isDigit = [] ∧ rest.dropWhile Char.isDigit = rest := by
    cases rest with
    | nil => exact ⟨rfl, rfl⟩
    | cons c rest =>
      have other : ¬c.isDigit = true := by simpa using stops c rfl
      exact ⟨List.takeWhile_cons_of_neg other, List.dropWhile_cons_of_neg other⟩
  rw [List.takeWhile_append_of_pos h, List.dropWhile_append_of_pos h, none.1, none.2]
  simp

/-- A number ends in front of the first character that is neither a digit nor a point. -/
theorem readNumber_numeral {whole fraction number rest : List Char}
    (numeral : Numeral whole fraction number)
    (stops : Stops (fun c => !c.isDigit && c != '.') rest) :
    readNumber (number ++ rest) = some (whole, fraction, rest) := by
  have digits : Stops (!·.isDigit) rest := fun c mem => by
    have := stops c mem
    grind
  cases numeral with
  | whole some all =>
    obtain ⟨taken, dropped⟩ := takeWhile_digits_append all digits
    unfold readNumber
    dsimp only
    rw [taken, dropped]
    split
    · rename_i tail
      have := stops '.' rfl
      simp at this
    · simp [some]
  | point some before behind =>
    have point : Stops (!·.isDigit) ('.' :: (fraction ++ rest)) := by
      rintro _ ⟨⟩
      rfl
    obtain ⟨taken, dropped⟩ := takeWhile_digits_append before point
    obtain ⟨taken', dropped'⟩ := takeWhile_digits_append behind digits
    unfold readNumber
    dsimp only
    rw [List.append_assoc, List.cons_append, taken, dropped]
    grind

/-- A unit is read as a whole, unless an `s` makes milliseconds out of minutes. -/
theorem read_name {unit : TimeUnit} {name rest : List Char} (mem : name ∈ unit.names)
    (stops : Stops (· != 's') rest) : TimeUnit.read (name ++ rest) = some (unit, rest) := by
  cases unit with
  | minute =>
    obtain rfl := List.mem_singleton.mp mem
    cases rest with
    | nil => rfl
    | cons c rest =>
      have other : c ≠ 's' := by simpa using stops c rfl
      rw [List.singleton_append, TimeUnit.read]
      grind
  | microsecond =>
    simp only [TimeUnit.names, List.mem_cons, List.not_mem_nil, or_false] at mem
    rcases mem with rfl | rfl | rfl <;> rfl
  | nanosecond | millisecond | second | hour =>
    obtain rfl := List.mem_singleton.mp mem
    rfl

theorem Numeral.head {whole fraction number : List Char} (h : Numeral whole fraction number) :
    ∃ c tail, number = c :: tail ∧ (c.isDigit = true ∨ c = '.') := by
  cases h with
  | whole some digits =>
    obtain ⟨c, tail, rfl⟩ := List.exists_cons_of_ne_nil some
    exact ⟨c, tail, rfl, .inl (digits c (by simp))⟩
  | point some before behind =>
    cases whole with
    | nil => exact ⟨_, _, rfl, .inr rfl⟩
    | cons c whole => exact ⟨c, _, rfl, .inl (before c (by simp))⟩

/-- No unit begins like the rest of a number. -/
theorem stops_of_mem_names {unit : TimeUnit} {name : List Char} (mem : name ∈ unit.names)
    (rest : List Char) : Stops (fun c => !c.isDigit && c != '.') (name ++ rest) := by
  have begins : ∃ c ∈ name.head?, c.isDigit = false ∧ c ≠ '.' := by
    revert name
    cases unit <;> simp [TimeUnit.names]
  obtain ⟨c, head, digit, point⟩ := begins
  intro d first
  obtain rfl : c = d := by
    rw [List.head?_append, Option.mem_def.mp head] at first
    simpa using first
  simp [digit, point]

/-- A written segment is read back if no `s` follows that would change its unit. -/
theorem Segment.read_written {s : Segment} {text rest : List Char} (h : s.WrittenAs text)
    (stops : Stops (· != 's') rest) : Segment.read (text ++ rest) = some (s, rest) := by
  obtain ⟨numeral, unit⟩ := h
  rw [List.append_assoc]
  simp only [Segment.read, readNumber_numeral numeral (stops_of_mem_names unit rest),
    read_name unit stops, Option.bind_eq_bind, Option.bind_some]
  rfl

/-- No list of segments begins with an `s`. -/
theorem WrittenAs.stops {segments : List Segment} {l : List Char} (h : WrittenAs segments l) :
    Stops (· != 's') l := by
  cases h with
  | nil => simp [Stops]
  | cons first others =>
    obtain ⟨numeral, unit⟩ := first
    obtain ⟨c, tail, rfl, kind⟩ := numeral.head
    rintro _ ⟨⟩
    rcases kind with digit | rfl
    · have other : c ≠ 's' := by
        rintro rfl
        exact absurd digit (by decide)
      simpa using other
    · rfl

theorem Segment.WrittenAs.ne_nil {s : Segment} {text : List Char} (h : s.WrittenAs text) :
    text ≠ [] := by
  obtain ⟨numeral, unit⟩ := h
  obtain ⟨c, tail, rfl, -⟩ := numeral.head
  simp

theorem WrittenAs.eq_nil {l : List Char} (h : WrittenAs [] l) : l = [] := by
  cases h
  rfl

/-- Segments are read back one after the other. -/
theorem segmentsUpTo_written {limit : Nat} {segments : List Segment} {l : List Char}
    (h : WrittenAs segments l) (enough : l.length ≤ limit) :
    segmentsUpTo limit l = some segments := by
  induction h generalizing limit with
  | nil => rw [segmentsUpTo]
  | @cons s segments text rest first others ih =>
    obtain ⟨c, tail, rfl⟩ := List.exists_cons_of_ne_nil first.ne_nil
    have shorter : rest.length < (c :: tail ++ rest).length := by
      simp only [List.cons_append, List.length_cons, List.length_append]
      omega
    obtain ⟨limit, rfl⟩ : ∃ n, limit = n + 1 := ⟨limit - 1, by omega⟩
    have read := Segment.read_written first others.stops
    have behind : segmentsUpTo limit rest = some segments := ih (by omega)
    rw [List.cons_append] at read ⊢
    simp only [segmentsUpTo, read, behind, Option.bind_eq_bind, Option.bind_some]
    rfl

/-! ## What is accepted -/

/-- The reader finds the segments that a text writes, and there are no others. -/
theorem segments?_eq_some_iff {l : List Char} {segments : List Segment} :
    segments? l = some segments ↔ WrittenAs segments l :=
  ⟨writtenAs_of_segmentsUpTo, fun h => segmentsUpTo_written h (Nat.le_refl _)⟩

/-! ## The characters of a duration -/

def symbols : List Char := ['.', 'n', 'u', '\u00B5', '\u03BC', 'm', 's', 'h']

def unitEnds : List Char := ['s', 'm', 'h']

/-- A number consists of digits and a point. -/
theorem Numeral.chars {whole fraction number : List Char} (h : Numeral whole fraction number) :
    ∀ c ∈ number, c.isDigit = true ∨ c ∈ symbols := by
  intro c mem
  cases h with
  | whole some digits => exact .inl (digits c mem)
  | point some before behind =>
    rcases List.mem_append.mp mem with early | late
    · exact .inl (before c early)
    · rcases List.mem_cons.mp late with rfl | late
      · exact .inr (by decide)
      · exact .inl (behind c late)

theorem chars_of_mem_names {unit : TimeUnit} {name : List Char} (mem : name ∈ unit.names) :
    (∀ c ∈ name, c ∈ symbols) ∧ ∃ c ∈ name.getLast?, c ∈ unitEnds := by
  revert name
  cases unit <;> simp [TimeUnit.names, symbols, unitEnds]

theorem Segment.WrittenAs.chars {s : Segment} {text : List Char} (h : s.WrittenAs text) :
    ∀ c ∈ text, c.isDigit = true ∨ c ∈ symbols := by
  obtain ⟨numeral, unit⟩ := h
  intro c mem
  rcases List.mem_append.mp mem with early | late
  · exact numeral.chars c early
  · exact .inr ((chars_of_mem_names unit).1 c late)

theorem Segment.WrittenAs.last {s : Segment} {text : List Char} (h : s.WrittenAs text) :
    ∃ c ∈ text.getLast?, c ∈ unitEnds := by
  obtain ⟨numeral, unit⟩ := h
  obtain ⟨c, last, mem⟩ := (chars_of_mem_names unit).2
  exact ⟨c, by simp [List.getLast?_append, Option.mem_def.mp last], mem⟩

/-- Durations consist of digits and few other characters, none of which is blank. -/
theorem WrittenAs.chars {segments : List Segment} {l : List Char} (h : WrittenAs segments l) :
    ∀ c ∈ l, c.isDigit = true ∨ c ∈ symbols := by
  induction h with
  | nil => simp
  | cons first others ih =>
    intro c mem
    rcases List.mem_append.mp mem with early | late
    · exact first.chars c early
    · exact ih c late

/-- A duration ends with a letter. -/
theorem WrittenAs.last {segments : List Segment} {l : List Char} (h : WrittenAs segments l)
    (some : segments ≠ []) : ∃ c ∈ l.getLast?, c ∈ unitEnds := by
  induction h with
  | nil => exact absurd rfl some
  | @cons s segments text rest first others ih =>
    rw [List.getLast?_append]
    cases segments with
    | nil =>
      obtain rfl := others.eq_nil
      simpa using first.last
    | cons s' segments =>
      obtain ⟨c, last, mem⟩ := ih (by simp)
      exact ⟨c, by simp [Option.mem_def.mp last], mem⟩

/-- Durations consist of ASCII digits and a few symbols. -/
theorem IsDuration.chars {l : List Char} (h : IsDuration l) :
    ∀ c ∈ l, c.isDigit = true ∨ c ∈ symbols := by
  rcases h with rfl | ⟨segments, -, written⟩
  · simp
  · exact written.chars

/-- Durations other than zero end with a unit. -/
theorem IsDuration.last {l : List Char} (h : IsDuration l) (nonzero : l ≠ ['0']) :
    ∃ c ∈ l.getLast?, c ∈ unitEnds := by
  rcases h with zero | ⟨segments, some, written⟩
  · exact absurd zero nonzero
  · exact written.last some

/-! ## What becomes of a text -/

section Parse

variable {raw : String}

theorem isEmpty_trimChars (raw : String) :
    (Text.trimChars raw.toList).isEmpty = Text.blank raw := by
  rw [Bool.eq_iff_iff, List.isEmpty_iff, Text.trimChars_eq_nil_iff]
  rfl

theorem not_blank_of_isDuration (h : IsDuration (Text.trimChars raw.toList)) :
    Text.blank raw = false := by
  rw [← isEmpty_trimChars]
  cases text : Text.trimChars raw.toList with
  | cons c rest => rfl
  | nil =>
    obtain ⟨c, last, -⟩ := h.last (by simp [text])
    simp [text] at last

theorem parse_blank (h : Text.blank raw = true) : parse raw = .error .empty := by
  unfold parse
  dsimp only
  rw [isEmpty_trimChars, if_pos h]

/-- Segments are measured, in whatever way a text is divided into them. -/
theorem parse_written {segments : List Segment} (some : segments ≠ [])
    (written : WrittenAs segments (Text.trimChars raw.toList)) :
    parse raw = ofTotal raw (total segments) := by
  have filled := not_blank_of_isDuration (.inr ⟨segments, some, written⟩)
  have nonzero : Text.trimChars raw.toList ≠ ['0'] := by
    intro zero
    obtain ⟨c, last, unit⟩ := written.last some
    obtain rfl : '0' = c := by simpa [zero] using last
    exact absurd unit (by decide)
  unfold parse
  dsimp only
  rw [isEmpty_trimChars, filled, if_neg Bool.false_ne_true, if_neg nonzero,
    segments?_eq_some_iff.mpr written]

/-- A duration is refused only if it is too long. -/
theorem parse_isDuration (h : IsDuration (Text.trimChars raw.toList)) :
    (∃ n, parse raw = .ok n) ∨ parse raw = .error (.outOfRange raw) := by
  rcases h with zero | ⟨segments, some, written⟩
  · refine .inl ⟨0, ?_⟩
    unfold parse
    dsimp only
    rw [zero, if_neg (by decide), if_pos rfl]
  · rw [parse_written some written]
    unfold ofTotal
    split
    · exact .inr rfl
    · exact .inl ⟨_, rfl⟩

/-- Any other text is refused by the notation. -/
theorem parse_not_isDuration (filled : Text.blank raw = false)
    (h : ¬IsDuration (Text.trimChars raw.toList)) : parse raw = .error (.invalid raw) := by
  have nonempty := isEmpty_trimChars raw
  rw [filled, List.isEmpty_eq_false_iff] at nonempty
  have unread : segments? (Text.trimChars raw.toList) = none := by
    cases read : segments? (Text.trimChars raw.toList) with
    | none => rfl
    | some segments =>
      have written := segments?_eq_some_iff.mp read
      refine absurd (.inr ⟨segments, ?_, written⟩) h
      rintro rfl
      exact nonempty written.eq_nil
  unfold parse
  dsimp only
  rw [isEmpty_trimChars, filled, if_neg Bool.false_ne_true, if_neg fun zero => h (.inl zero),
    unread]

/-- Blank texts, durations and all others. -/
theorem parse_cases (raw : String) :
    (Text.blank raw = true ∧ ¬IsDuration (Text.trimChars raw.toList) ∧ parse raw = .error .empty) ∨
    (Text.blank raw = false ∧ IsDuration (Text.trimChars raw.toList) ∧
      ((∃ n, parse raw = .ok n) ∨ parse raw = .error (.outOfRange raw))) ∨
    (Text.blank raw = false ∧ ¬IsDuration (Text.trimChars raw.toList) ∧
      parse raw = .error (.invalid raw)) := by
  cases filled : Text.blank raw with
  | true =>
    refine .inl ⟨rfl, fun duration => ?_, parse_blank filled⟩
    rw [not_blank_of_isDuration duration] at filled
    cases filled
  | false =>
    refine .inr ?_
    by_cases duration : IsDuration (Text.trimChars raw.toList)
    · exact .inl ⟨rfl, duration, parse_isDuration duration⟩
    · exact .inr ⟨rfl, duration, parse_not_isDuration filled duration⟩

end Parse

/-- Every text is either blank, or a duration, which is measured, or invalid. A text with other
characters between its blank ends than ASCII digits and the symbols of the notation is invalid, and
so is one that does not end with a unit and is not a bare zero. No text is refused that can be
divided into segments in some way. -/
theorem parse_accepts_notation (raw : String) :
    (parse raw = .error .empty ↔ Text.blank raw = true) ∧
    ((∃ n, parse raw = .ok n) ∨ parse raw = .error (.outOfRange raw) ↔
      IsDuration (Text.trimChars raw.toList)) ∧
    (parse raw = .error (.invalid raw) ↔
      Text.blank raw = false ∧ ¬IsDuration (Text.trimChars raw.toList)) ∧
    (∀ c ∈ Text.trimChars raw.toList, c.isDigit = false → c ∉ symbols →
      parse raw = .error (.invalid raw)) ∧
    (∀ c ∈ (Text.trimChars raw.toList).getLast?, c ∉ unitEnds →
      Text.trimChars raw.toList ≠ ['0'] → parse raw = .error (.invalid raw)) ∧
    ∀ segments, segments ≠ [] → WrittenAs segments (Text.trimChars raw.toList) →
      segments? (Text.trimChars raw.toList) = some segments ∧
        parse raw = ofTotal raw (total segments) := by
  have filled {c : Char} (mem : c ∈ Text.trimChars raw.toList) : Text.blank raw = false := by
    rw [← isEmpty_trimChars, List.isEmpty_eq_false_iff]
    exact List.ne_nil_of_mem mem
  refine ⟨?_, ?_, ?_, fun c mem digit symbol => ?_, fun c last unit nonzero => ?_,
    fun segments some written => ⟨segments?_eq_some_iff.mpr written, parse_written some written⟩⟩
  iterate 3
    rcases parse_cases raw with ⟨b, d, p⟩ | ⟨b, d, ⟨n, p⟩ | p⟩ | ⟨b, d, p⟩ <;> simp [b, d, p]
  · refine parse_not_isDuration (filled mem) fun duration => ?_
    rcases duration.chars c mem with isDigit | isSymbol
    · rw [digit] at isDigit
      cases isDigit
    · exact symbol isSymbol
  · refine parse_not_isDuration (filled (List.mem_of_getLast? last)) fun duration => ?_
    obtain ⟨d, last', isEnd⟩ := duration.last nonzero
    obtain rfl : c = d := by simpa [Option.mem_def.mp last] using last'
    exact unit isEnd

end RoomAudio.Duration
