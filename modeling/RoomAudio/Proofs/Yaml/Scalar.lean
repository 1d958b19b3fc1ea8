import RoomAudio.Proofs.Yaml.Literal
import RoomAudio.Proofs.Yaml.Plain
import RoomAudio.Proofs.Yaml.Quoted
import RoomAudio.Proofs.Yaml.Scanner
import RoomAudio.Proofs.Yaml.Style

/-!
# Finding scalars

## Main definitions

* `Yaml.Scanner.leads_text` — the scanner passes a written text.
-/

namespace RoomAudio.Yaml.Scanner

variable {c c' : Cursor} {allowed allowed' : Bool} {k k' : Option Candidate} {indent i column : Int}
  {outer outer' : List Int} {found found' : List Token} {m : Mark}

/-- Where a plain scalar is found. -/
theorem fetchFrom_plain {s : Scanner} {d : Char} {rest : List Char} (outside : s.flowLevel = 0)
    (leading : isLeadingIndicator d = false) (noGap : isGap d = false)
    (entry : isEntryIndicator d = true ∨ d = ':' → startsGap rest = false)
    (noMarker : s.column = 0 → startsMarker (d :: rest) = false) :
    s.fetchFrom d rest = s.fetchPlain := by
  have flow : s.inFlow = false := by simp [inFlow, outside]
  have marker : (s.column == 0 && startsMarker (d :: rest)) = false := by simpa using noMarker
  have hyphen : d = '-' → startsGap rest = false :=
    fun same => entry (.inl (by simp [isEntryIndicator, same]))
  have question : d = '?' → startsGap rest = false :=
    fun same => entry (.inl (by simp [isEntryIndicator, same]))
  have colon : d = ':' → startsGap rest = false := fun same => entry (.inr same)
  simp only [isLeadingIndicator, List.contains_eq_mem, List.mem_cons, List.not_mem_nil, or_false,
    decide_eq_false_iff_not, not_or] at leading
  have plain : startsPlain false d rest = true := by
    by_cases isHyphen : d = '-'
    · have noSpacing : rest.head?.any isSpacing = false := by
        cases rest with
        | nil => rfl
        | cons e rest => exact not_isSpacing_of_not_isGap (hyphen isHyphen)
      simp [startsPlain, isHyphen, noSpacing]
    by_cases isOther : d = '?' ∨ d = ':'
    · simp [startsPlain, isOther, isOther.elim question colon]
    · have noIndicator : isIndicator d = false := by simp_all [isIndicator]
      simp [startsPlain, noIndicator, noGap]
  simp [fetchFrom, flow, marker, plain, leading, show (d == '-' && startsGap rest) = false by simpa,
    show (d == '?' && startsGap rest) = false by simpa,
    show (d == ':' && startsGap rest) = false by simpa]

/-! ## Plain scalars -/

def noted (allowed : Bool) (indent : Int) (m : Mark) (position : Nat) : Option Candidate :=
  if allowed then some { required := indent == m.column, position, mark := m } else none

theorem saveCandidate_place : (place c allowed none indent outer found).saveCandidate =
    some (place c allowed (noted allowed indent c.mark found.length) indent outer found) := by
  cases allowed <;> rfl

/-- A plain scalar is found, up to where reading it stops. -/
theorem fetch_plain {n : Nat} {l : List Char} (tail : List Char) (plain : allowsPlain l = true)
    (some : l ≠ []) (deep : indent ≤ ((m.advance n).column : Nat))
    (noMarker : m.column + n = 0 → startsMarker (l ++ tail) = false) :
    (place ⟨indentation n ++ (l ++ tail), m⟩ allowed none indent outer found).fetch =
      (plainFrom false (indent + 1) l.reverse {} false tail (m.advance (n + l.length))).map
        fun p => place p.after p.broken (noted allowed indent (m.advance n) found.length) indent
          outer (.scalar .plain p.text :: found) := by
  have read := @readPlain_text (indent + 1) (m.advance n) l tail plain some noMarker
  obtain ⟨d, l, rfl⟩ := List.exists_cons_of_ne_nil some
  obtain ⟨starts, leading, entry⟩ := starts_of_allowsPlain plain tail
  rw [Mark.advance_advance] at read
  rw [List.cons_append] at read noMarker ⊢
  have plainly := @fetchFrom_plain (place ⟨d :: (l ++ tail), m.advance n⟩ allowed none indent outer
    found) d (l ++ tail) rfl leading starts.1 entry noMarker
  rw [fetch_place (gapFrom_line starts n _) rfl rfl]
  dsimp only
  rw [unroll_place_of_le deep, plainly, fetchPlain, saveCandidate_place]
  change (readPlain false (indent + 1) ⟨d :: (l ++ tail), m.advance n⟩).bind _ = _
  rw [read]
  generalize m.advance (n + (d :: l).length) = m'
  cases plainFrom false (indent + 1) (d :: l).reverse {} false tail m'
  · rfl
  · rfl

theorem idle_noted {position : Nat} (h : indent < m.column) :
    Idle m.line (noted allowed indent m position) := by
  intro a same
  rw [noted] at same
  split at same
  · obtain rfl := Option.some.inj same
    refine ⟨?_, Nat.le_refl _⟩
    simp only [beq_eq_false_iff_ne]
    omega
  · cases same

/-- Behind a value fewer characters are left than in front of it. -/
theorem visible_lt_of_passed {line : Nat} {next l : List Char} {d : Char}
    (passed : Passed line next c) (starts : d ≠ ' ') (longer : next.length ≤ l.length) :
    visible c.rest < visible (' ' :: d :: l) := by
  have behind := passed.length_le
  have fewer := visible_le c.rest
  rw [visible_space l starts]
  omega

/-- A plain value with its line. -/
theorem leads_plain {n : Nat} {l next : List Char} (plain : allowsPlain l = true) (some : l ≠ [])
    (follows : Follows n next) (inside : (n : Int) ≤ indent) (deep : indent < m.column) :
    LeadsToLine (place ⟨' ' :: ahead (l ++ ['\n']) next, m⟩ allowed none indent outer found)
      next indent outer (.scalar .plain l :: found) := by
  have column : indent < (m.advance 1).column := by
    rw [Mark.column_advance]
    omega
  obtain ⟨c, broken, passed, again, read⟩ := @plainFrom_follows (indent + 1) l.reverse
    (m.advance (1 + l.length)) n next follows (by omega)
  have step := @fetch_plain allowed indent outer found m 1 l (ahead ['\n'] next) plain some
    (Int.le_of_lt column) (by simp)
  rw [read, List.reverse_reverse] at step
  have idle : Idle m.line (noted allowed indent (m.advance 1) found.length) := idle_noted column
  obtain ⟨m', start, leads⟩ := @leads_of_passed c broken _ indent outer
    (.scalar .plain l :: found) _ next passed idle again
  refine ⟨m', start, .trans (.of_fetch ?_ rfl ?_) leads⟩
  · rw [concat_ahead]
    exact step
  · obtain ⟨d, l, rfl⟩ := List.exists_cons_of_ne_nil some
    obtain ⟨starts, -⟩ := starts_of_allowsPlain plain []
    rw [concat_ahead]
    refine visible_lt_of_passed passed (ne_of_not_isGap starts.1).1 ?_
    exact Nat.le_trans (length_le_ahead ['\n'] next) (by simp)

/-! ## Quoted scalars -/

theorem Idle.mono {line line' : Nat} (h : Idle line k) (le : line ≤ line') : Idle line' k :=
  fun a same => ⟨(h a same).1, Nat.le_trans (h a same).2 le⟩

inductive Quotes : Style → Char → Prop where
  | single : Quotes .singleQuoted '\''
  | double : Quotes .doubleQuoted '"'

def readQuoted (style : Style) (c : Cursor) : Option (List Char × Cursor) :=
  if style == .singleQuoted then readSingleQuoted c else readDoubleQuoted c

theorem fetchQuoted_eq (s : Scanner) (style : Style) : s.fetchQuoted style =
    s.saveCandidate.bind fun s => (readQuoted style (s.cursor.skip 1)).map fun (text, c) =>
      { (s.goto c).push (.scalar style text) with keyAllowed := false } := by
  rw [fetchQuoted]
  cases s.saveCandidate with
  | none => rfl
  | some s =>
    simp only [Option.bind_eq_bind, Option.bind_some, readQuoted]
    split
    · cases readSingleQuoted (s.cursor.skip 1) <;> rfl
    · cases readDoubleQuoted (s.cursor.skip 1) <;> rfl

section Quoted

variable {style : Style} {quote : Char} (quotes : Quotes style quote)
include quotes

theorem Quotes.starts : StartsToken quote := by
  cases quotes <;> exact ⟨by decide, by decide, by decide⟩

theorem Quotes.fetchFrom_eq {s : Scanner} {rest : List Char} (outside : s.flowLevel = 0) :
    s.fetchFrom quote rest = s.fetchQuoted style := by
  cases quotes <;> simp [fetchFrom, startsMarker, inFlow, outside]

theorem fetch_quoted {l rest : List Char} {after : Cursor} (deep : indent ≤ (m.advance 1).column)
    (read : readQuoted style ⟨rest, m.advance 2⟩ = some (l, after)) :
    (place ⟨' ' :: quote :: rest, m⟩ allowed none indent outer found).fetch =
      some (place after false (noted allowed indent (m.advance 1) found.length) indent outer
        (.scalar style l :: found)) := by
  have gap := @gapFrom_line allowed m quote quotes.starts 1 rest
  have quoted := @Quotes.fetchFrom_eq style quote quotes
    (place ⟨quote :: rest, m.advance 1⟩ allowed none indent outer found) rest rfl
  rw [fetch_place gap rfl rfl]
  dsimp only
  rw [unroll_place_of_le deep, quoted, fetchQuoted_eq, saveCandidate_place, Option.bind_some]
  change (readQuoted style ⟨rest, m.advance 2⟩).map _ = _
  rw [read]
  rfl

/-- A quoted value with its line. -/
theorem leads_quoted {n : Nat} {l body next : List Char} (follows : Follows n next)
    (deep : indent < m.column)
    (read : ∀ tail, tail.head? ≠ some '\'' → ∃ after : Mark, m.line ≤ after.line ∧
      readQuoted style ⟨body ++ tail, m.advance 2⟩ = some (l, ⟨tail, after⟩)) :
    LeadsToLine (place ⟨' ' :: ahead (quote :: body ++ ['\n']) next, m⟩
      allowed none indent outer found) next indent outer (.scalar style l :: found) := by
  have column : indent < (m.advance 1).column := by
    rw [Mark.column_advance]
    omega
  have last : (ahead ['\n'] next).head? ≠ some '\'' := by
    cases next <;> simp [ahead]
  obtain ⟨after, line, read⟩ := read _ last
  have idle : Idle m.line (noted allowed indent (m.advance 1) found.length) := idle_noted column
  obtain ⟨m', start, leads⟩ := @leads_of_newline false _ indent outer
    (.scalar style l :: found) after n next follows (idle.mono line)
  refine ⟨m', start, .trans (.of_fetch ?_ rfl ?_) leads⟩
  · rw [concat_ahead]
    exact fetch_quoted quotes (Int.le_of_lt column) read
  · have fewer := visible_le (ahead ['\n'] next)
    rw [concat_ahead]
    change visible (ahead ['\n'] next) < visible (' ' :: quote :: (body ++ ahead ['\n'] next))
    rw [visible_space _ (ne_of_not_isGap quotes.starts.1).1, List.length_append]
    omega

end Quoted

/-! ## Literal blocks -/

/-- A literal block. -/
theorem leads_literal {n : Nat} {l next : List Char} (allowed_ : allowsLiteral l = true)
    (some : l ≠ []) (follows : Follows n next) (ends : next = [] → endsBreak l = false)
    (deep : n < m.column) :
    LeadsToLine (place ⟨' ' :: ahead (writeLiteral (n + indentStep) l) next, m⟩
      allowed none n outer found) next n outer (.scalar .literal l :: found) := by
  have starts : StartsToken '|' := ⟨by decide, by decide, by decide⟩
  obtain ⟨c, passed, read⟩ := @readBlock_text l next (m.advance 2) n allowed_ some follows ends
  obtain ⟨m', start, leads⟩ := @leads_of_passed c true none n outer
    (.scalar .literal l :: found) _ next passed (idle_none _) (fun _ => rfl)
  obtain ⟨body, more, written, -⟩ := writeLiteral_eq (n + indentStep) l
  rw [written, List.tail_cons] at read
  rw [written, cons_ahead more]
  refine ⟨m', start, .trans (.of_fetch ?_ rfl ?_) leads⟩
  · have gap := @gapFrom_line allowed m '|' starts 1 (ahead body next)
    have block : (place ⟨'|' :: ahead body next, m.advance 1⟩ allowed none n outer
        found).fetchFrom '|' (ahead body next) =
        (place ⟨'|' :: ahead body next, m.advance 1⟩ allowed none n outer
          found).fetchBlock .literal := by
      simp [fetchFrom, startsMarker, inFlow, place]
    have column : (n : Int) ≤ (m.advance 1).column := by
      rw [Mark.column_advance]
      omega
    rw [fetch_place gap rfl rfl]
    dsimp only
    rw [unroll_place_of_le column, block, fetchBlock]
    change (readBlock .literal n ⟨ahead body next, m.advance 2⟩).bind _ = _
    rw [read]
    rfl
  · exact visible_lt_of_passed passed (by decide) (length_le_ahead body next)

/-! ## Texts -/

/-- A written text with its lines. -/
theorem leads_text {n : Nat} {s : String} {next : List Char} (follows : Follows n next)
    (ends : next = [] → styleOf s.toList = .literal → endsBreak s.toList = false)
    (deep : n < m.column) :
    LeadsToLine (place ⟨' ' :: ahead (writeText (n + indentStep) s) next, m⟩
      allowed none n outer found) next n outer (.scalar (styleOf s.toList) s.toList :: found) := by
  have column : (n : Int) < m.column := by omega
  have inside : 0 < (m.advance 2).column := Nat.succ_pos _
  have styled := styled_styleOf s.toList
  rw [writeText]
  generalize styleOf s.toList = style at styled ends ⊢
  cases styled with
  | plain meaning plain =>
    exact leads_plain plain (Styled.ne_nil (.plain meaning plain) (.inl rfl)) follows
      (Int.le_refl _) column
  | singleQuoted noFeed quoted =>
    refine leads_quoted .single follows column fun tail last => ?_
    exact readSingleQuoted_text quoted noFeed (Nat.succ_pos _) inside last
  | doubleQuoted =>
    have written : writeDoubleQuoted s.toList =
        '"' :: (s.toList.flatMap writeDoubleQuotedChar ++ ['"']) := rfl
    rw [written]
    refine leads_quoted .double follows column fun tail last => ?_
    rw [List.append_assoc]
    exact readDoubleQuoted_text s.toList inside
  | literal feed literal =>
    exact leads_literal literal (Styled.ne_nil (.literal feed literal) (.inr rfl)) follows
      (fun ended => ends ended rfl) deep

end RoomAudio.Yaml.Scanner
