import Mathlib.Data.List.Basic
import RoomAudio.Proofs.Yaml.Cursor
import RoomAudio.Yaml.Token.Block

/-!
# Reading back literal blocks

The lines of a literal block are read as the text they were written for. The header says what
becomes of the line breaks at the end, so that none is lost and none is added.

## Main definitions

* `Yaml.readBlock_text` — a text is read back from its literal block.
-/

namespace RoomAudio.Yaml

/-! ## The lines of a block -/

/-- The lines of a block without the line break that is added to an unfinished one. -/
def literalBody (indent : Nat) (fresh : Bool) : List Char → List Char
  | [] => []
  | c :: rest =>
    if isBreak c then c :: literalBody indent true rest
    else (if fresh then indentation indent else []) ++ c :: literalBody indent false rest

theorem literalBody_ne_nil {indent : Nat} {fresh : Bool} {l : List Char} (some : l ≠ []) :
    literalBody indent fresh l ≠ [] := by
  cases l with
  | nil => exact absurd rfl some
  | cons c l =>
    rw [literalBody]
    split <;> simp

def freshAfter (fresh : Bool) (l : List Char) : Bool :=
  match l.getLast? with
  | some c => isBreak c
  | none => fresh

theorem freshAfter_cons (fresh : Bool) (c : Char) (l : List Char) :
    freshAfter fresh (c :: l) = freshAfter (isBreak c) l := by
  cases l <;> simp [freshAfter, List.getLast?_cons]

theorem writeLiteralLines_eq (indent : Nat) (fresh : Bool) (l : List Char) :
    writeLiteralLines indent fresh l =
      literalBody indent fresh l ++ if freshAfter fresh l then [] else ['\n'] := by
  induction l generalizing fresh with
  | nil => cases fresh <;> rfl
  | cons c l ih =>
    rw [writeLiteralLines, literalBody, freshAfter_cons]
    split
    · rename_i break_
      rw [ih, break_, List.cons_append]
    · rename_i other
      rw [ih, Bool.not_eq_true _ |>.mp other, List.append_assoc, List.cons_append]

/-- The lines of a block are written one after the other. -/
theorem literalBody_append (indent : Nat) (fresh : Bool) (l l' : List Char) :
    literalBody indent fresh (l ++ l') =
      literalBody indent fresh l ++ literalBody indent (freshAfter fresh l) l' := by
  induction l generalizing fresh with
  | nil => rfl
  | cons c l ih =>
    rw [List.cons_append, literalBody, literalBody, freshAfter_cons]
    split
    · rename_i break_
      rw [ih, break_, List.cons_append]
    · rename_i other
      rw [ih, Bool.not_eq_true _ |>.mp other, List.append_assoc, List.cons_append]

section Lines

variable {indent : Nat} {b : BlockLines} {m : Mark}

/-- A step over a character that does not begin a line break of two characters. -/
theorem blockLines_cons {inLine : Bool} {c : Char} {rest : List Char}
    (single : ∀ rest', c = '\r' → rest = '\n' :: rest' → False) :
    blockLines false indent b inLine (c :: rest) m =
      if inLine then
        if isBreak c then
          blockLines false indent { b with first := [breakValue c] } false rest (m.newline 1)
        else blockLines false indent { b with text := c :: b.text } true rest m.next
      else if c == ' ' && m.column < indent then blockLines false indent b false rest m.next
      else if c == '\t' && m.column < indent then none
      else if isBreak c then
        blockLines false indent { b with further := breakValue c :: b.further } false rest
          (m.newline 1)
      else if m.column = indent then
        blockLines false indent { b.beginLine false (isSpacing c) with
          text := c :: (b.beginLine false (isSpacing c)).text } true rest m.next
      else some (b, ⟨c :: rest, m⟩) := by
  rw [blockLines.eq_def]
  split
  · rename_i heq
    cases heq
  · rename_i heq
    cases heq
    exact absurd rfl (single _ rfl)
  · rename_i heq
    cases heq
    rfl

/-- The indentation of a line is passed. -/
theorem blockLines_indentation {k : Nat} {rest : List Char} (column : m.column + k ≤ indent) :
    blockLines false indent b false (indentation k ++ rest) m =
      blockLines false indent b false rest (m.advance k) := by
  induction k generalizing m with
  | zero => rfl
  | succ k ih =>
    have step : indentation (k + 1) ++ rest = ' ' :: (indentation k ++ rest) := rfl
    rw [step, blockLines_cons (by simp), if_neg (by decide), if_pos (by simp; omega),
      ih (by rw [Mark.next_eq_advance, Mark.column_advance]; omega), Mark.next_eq_advance,
      Mark.advance_advance, Nat.add_comm]

def BlockLines.held (b : BlockLines) : List Char := (b.further ++ b.first ++ b.text).reverse

/-- Inside a line nothing is held back. -/
def BlockLines.Begun (b : BlockLines) : Prop := b.first = [] ∧ b.further = []

/-- What is held behind the text `l` and where the reader stands then. A new line may begin
there. -/
structure BlockLines.Behind (b : BlockLines) (m : Mark) (l : List Char) (fresh : Bool)
    (b' : BlockLines) (m' : Mark) : Prop where
  held : b'.held = b.held ++ l
  column : fresh = true → m'.column = 0
  begun : fresh = false → b'.Begun
  line : m.line ≤ m'.line

/-- At the beginning of a line a character is read behind the indentation, unless the line is
empty. -/
theorem blockLines_beginning {c : Char} (tail : List Char) (printable : isPrintable c = true)
    (start : m.column = 0) :
    ∃ b' m', b.Behind m [c] (isBreak c) b' m' ∧
      blockLines false indent b false (literalBody indent true [c] ++ tail) m =
        blockLines false indent b' (!isBreak c) tail m' := by
  have noReturn := ne_return_of_isPrintable printable
  have noTab := ne_tab_of_isPrintable printable
  rw [literalBody, literalBody]
  cases break_ : isBreak c with
  | true =>
    have noSpace : c ≠ ' ' := by
      rintro rfl
      exact absurd break_ (by decide)
    refine ⟨{ b with further := c :: b.further }, m.newline 1,
      ⟨by simp [BlockLines.held], fun _ => rfl, by simp, Nat.le_succ _⟩, ?_⟩
    rw [if_pos rfl, List.cons_append, blockLines_cons fun _ same _ => noReturn same, break_,
      breakValue_of_isPrintable printable break_, if_neg (by decide), if_neg (by simp [noSpace]),
      if_neg (by simp [noTab]), if_pos rfl]
    rfl
  | false =>
    have column : (m.advance indent).column = indent := by simp [start]
    have inside (d : Char) : ¬(c == d && decide ((m.advance indent).column < indent)) = true := by
      rw [column]
      simp
    refine ⟨{ b.beginLine false (isSpacing c) with
        text := c :: (b.beginLine false (isSpacing c)).text }, (m.advance indent).next,
      ⟨by simp [BlockLines.held, BlockLines.beginLine], by simp, fun _ => ⟨rfl, rfl⟩,
        Nat.le_refl _⟩, ?_⟩
    rw [if_neg Bool.false_ne_true, if_pos rfl, List.append_assoc,
      blockLines_indentation (by simp [start]), List.cons_append,
      blockLines_cons fun _ same _ => noReturn same, if_neg (by decide), if_neg (inside ' '),
      if_neg (inside '\t'), break_, if_neg Bool.false_ne_true, if_pos column]
    rfl

/-- A character inside a line is taken as it is. -/
theorem blockLines_inside {c : Char} (tail : List Char) (printable : isPrintable c = true)
    (begun : b.Begun) :
    ∃ b' m', b.Behind m [c] (isBreak c) b' m' ∧
      blockLines false indent b true (literalBody indent false [c] ++ tail) m =
        blockLines false indent b' (!isBreak c) tail m' := by
  have noReturn := ne_return_of_isPrintable printable
  obtain ⟨noFirst, noFurther⟩ := begun
  rw [literalBody, literalBody]
  cases break_ : isBreak c with
  | true =>
    refine ⟨{ b with first := [c] }, m.newline 1,
      ⟨by simp [BlockLines.held, noFirst, noFurther], fun _ => rfl, by simp, Nat.le_succ _⟩, ?_⟩
    rw [if_pos rfl, List.cons_append, blockLines_cons fun _ same _ => noReturn same,
      if_pos rfl, if_pos break_, breakValue_of_isPrintable printable break_]
    rfl
  | false =>
    refine ⟨{ b with text := c :: b.text }, m.next,
      ⟨by simp [BlockLines.held, noFirst, noFurther], by simp, fun _ => ⟨noFirst, noFurther⟩,
        Nat.le_refl _⟩, ?_⟩
    rw [if_neg Bool.false_ne_true, if_neg Bool.false_ne_true, List.nil_append, List.cons_append,
      blockLines_cons fun _ same _ => noReturn same, if_pos rfl, break_,
      if_neg Bool.false_ne_true]
    rfl

/-- Reading passes the lines of a text. -/
theorem blockLines_body {fresh : Bool} (l tail : List Char)
    (printable : ∀ c ∈ l, isPrintable c = true)
    (start : fresh = true → m.column = 0) (begun : fresh = false → b.Begun) :
    ∃ b' m', b.Behind m l (freshAfter fresh l) b' m' ∧
      blockLines false indent b (!fresh) (literalBody indent fresh l ++ tail) m =
        blockLines false indent b' (!freshAfter fresh l) tail m' := by
  induction l generalizing fresh b m with
  | nil => exact ⟨b, m, ⟨(List.append_nil _).symm, start, begun, Nat.le_refl _⟩, rfl⟩
  | cons c l ih =>
    have first := printable c (by simp)
    obtain ⟨b₁, m₁, behind, read⟩ : ∃ b' m', b.Behind m [c] (isBreak c) b' m' ∧
        blockLines false indent b (!fresh) (literalBody indent fresh [c] ++
            (literalBody indent (isBreak c) l ++ tail)) m =
          blockLines false indent b' (!isBreak c)
            (literalBody indent (isBreak c) l ++ tail) m' := by
      cases fresh with
      | true => exact blockLines_beginning _ first (start rfl)
      | false => exact blockLines_inside _ first (begun rfl)
    obtain ⟨b', m', behind', read'⟩ :=
      ih (fun d mem => printable d (by simp [mem])) behind.column behind.begun
    have split : literalBody indent fresh (c :: l) =
        literalBody indent fresh [c] ++ literalBody indent (isBreak c) l :=
      literalBody_append indent fresh [c] l
    rw [freshAfter_cons, split, List.append_assoc]
    refine ⟨b', m', ⟨?_, behind'.column, behind'.begun, Nat.le_trans behind.line behind'.line⟩,
      read.trans read'⟩
    rw [behind'.held, behind.held, List.append_assoc, List.singleton_append]

/-- Reading stops at the next line that is indented less. -/
theorem blockLines_follows {line k : Nat} {next : List Char} (follows : Follows k next)
    (shallow : k < indent) (start : next ≠ [] → m.column = 0 ∧ line < m.line) :
    ∃ c, Passed line next c ∧ blockLines false indent b false next m = some (b, c) := by
  cases follows with
  | ended => exact ⟨_, .ended m, rfl⟩
  | @token k' c rest column starts =>
    obtain ⟨noSpace, noTab, -, noReturn⟩ := ne_of_not_isGap starts.1
    obtain ⟨start, later⟩ := start (by simp)
    refine ⟨_, .token starts start later, ?_⟩
    have shallow' : ¬(m.advance k').column = indent := by
      rw [Mark.column_advance]
      omega
    rw [blockLines_indentation (by omega), blockLines_cons fun _ same _ => noReturn same,
      if_neg Bool.false_ne_true, if_neg (by simp [noSpace]), if_neg (by simp [noTab]),
      not_isBreak_of_not_isGap starts.1, if_neg Bool.false_ne_true, if_neg shallow']

/-- The blank lines in front of the first line are lines of the block. -/
theorem blockLines_leadingBreaks (deepest : Nat) (breaks l : List Char) (deep : indent ≠ 0) :
    blockLines false indent { further := breaks } false l m =
      (leadingBreaks indent deepest breaks l m).bind fun (breaks, _, c) =>
        blockLines false indent { further := breaks } false c.rest c.mark := by
  have same (m : Mark) : (indent == 0 || m.column < indent) = decide (m.column < indent) := by
    simp [deep]
  fun_induction leadingBreaks indent deepest breaks l m with
  | case1 => rfl
  | case2 deepest breaks m rest ih =>
    rw [← ih, blockLines]
    rfl
  | case3 deepest breaks c rest m single inside space ih =>
    rw [← ih, blockLines_cons single, if_neg Bool.false_ne_true, if_pos (same m ▸ space)]
  | case4 deepest breaks c rest m single inside noSpace tab =>
    rw [blockLines_cons single, if_neg Bool.false_ne_true, if_neg (same m ▸ noSpace),
      if_pos (same m ▸ tab)]
    rfl
  | case5 deepest breaks c rest m single inside noSpace noTab break_ ih =>
    rw [← ih, blockLines_cons single, if_neg Bool.false_ne_true, if_neg (same m ▸ noSpace),
      if_neg (same m ▸ noTab), if_pos break_]
  | case6 => rfl

end Lines

/-! ## The header -/

/-- The text hides how deep its lines are indented. -/
def hidesIndent (l : List Char) : Bool := l.head?.any fun c => c == ' ' || isBreak c

def chompingOf (l : List Char) : Chomping :=
  if keepsBreaks l then .keep else if endsBreak l then .clip else .strip

/-- The header is read, up to the end of its line. -/
theorem readBlockHeader_literalHeader (l rest : List Char) (m : Mark) :
    ∃ m', readBlockHeader ⟨(literalHeader l).tail ++ '\n' :: rest, m⟩ =
      some (⟨chompingOf l, if hidesIndent l then indentStep else 0⟩, ⟨'\n' :: rest, m'⟩) ∧
        m'.line = m.line := by
  rw [literalHeader, chompingOf, hidesIndent]
  cases l.head?.any fun c => c == ' ' || isBreak c <;> cases keepsBreaks l <;>
    cases endsBreak l
  all_goals exact ⟨_, rfl, rfl⟩

theorem skipLineEnd_newline (rest : List Char) (m : Mark) :
    skipLineEnd ('\n' :: rest) m = some ⟨rest, m.newline 1⟩ := rfl

/-! ## The whole block -/

@[simp] theorem freshAfter_concat (fresh : Bool) (l : List Char) (c : Char) :
    freshAfter fresh (l ++ [c]) = isBreak c := by
  simp [freshAfter]

theorem endsBreak_concat (l : List Char) (c : Char) : endsBreak (l ++ [c]) = isBreak c := by
  simp [endsBreak]

theorem freshAfter_eq_endsBreak {fresh : Bool} {l : List Char} (some : l ≠ []) :
    freshAfter fresh l = endsBreak l := by
  obtain ⟨l, c, rfl⟩ := (List.eq_nil_or_concat' l).resolve_left some
  rw [freshAfter_concat, endsBreak_concat]

/-- Whether breaks are kept is decided at the very end. -/
theorem keepsBreaks_concat (l : List Char) (c : Char) :
    keepsBreaks (l ++ [c]) = (isBreak c && freshAfter true l) := by
  rcases List.eq_nil_or_concat' l with rfl | ⟨l, d, rfl⟩
  · simp [keepsBreaks, freshAfter]
  · simp [keepsBreaks]

/-- The mark of a block is decided at the very end. -/
theorem chompingOf_concat (l : List Char) (c : Char) : chompingOf (l ++ [c]) =
    if isBreak c then if freshAfter true l then .keep else .clip else .strip := by
  rw [chompingOf, keepsBreaks_concat, endsBreak_concat]
  cases isBreak c <;> rfl

section Block

variable {indent : Nat} {l next : List Char} {m : Mark}

theorem ahead_writeLiteralLines (some : l ≠ []) (ends : next = [] → endsBreak l = false) :
    ahead (writeLiteralLines indent true l) next =
      literalBody indent true l ++ ahead (if endsBreak l then [] else ['\n']) next := by
  rw [writeLiteralLines_eq, freshAfter_eq_endsBreak some]
  by_cases ended : next = []
  · simp [ended, ends ended, ahead]
  · rw [ahead_of_ne_nil ended, ahead_of_ne_nil ended, List.append_assoc]

/-- What becomes of the line breaks at the end is what the header says. -/
theorem blockLines_text {line k : Nat} (printable : ∀ c ∈ l, isPrintable c = true) (some : l ≠ [])
    (follows : Follows k next) (shallow : k < indent) (start : m.column = 0) (later : line < m.line)
    (ends : next = [] → endsBreak l = false) :
    ∃ b c, Passed line next c ∧ b.finish (chompingOf l) = l ∧
      blockLines false indent {} false (ahead (writeLiteralLines indent true l) next) m =
        .some (b, c) := by
  rw [ahead_writeLiteralLines some ends]
  obtain ⟨l, x, rfl⟩ := (List.eq_nil_or_concat' l).resolve_left some
  rw [endsBreak_concat] at ends ⊢
  rw [chompingOf_concat]
  cases break_ : isBreak x with
  | false =>
    obtain ⟨b, m', ⟨held, -, begun, line'⟩, read⟩ := @blockLines_body indent {} m true (l ++ [x])
      (ahead ['\n'] next) printable (fun _ => start) (by simp)
    rw [freshAfter_concat, break_] at begun read
    obtain ⟨noFirst, noFurther⟩ := begun rfl
    have whole (first : List Char) : ({ b with first } : BlockLines).finish .strip = l ++ [x] := by
      rw [BlockLines.held, noFirst, noFurther] at held
      exact held
    by_cases ended : next = []
    · subst ended
      exact ⟨b, _, .ended m', whole b.first, read⟩
    · obtain ⟨c, passed, stops⟩ := @blockLines_follows indent { b with first := ['\n'] }
        (m'.newline 1) line k next follows shallow fun _ =>
          ⟨rfl, Nat.lt_of_lt_of_le later (Nat.le_succ_of_le line')⟩
      refine ⟨_, c, passed, whole ['\n'], read.trans ?_⟩
      rw [ahead_of_ne_nil ended]
      exact stops
  | true =>
    have some : next ≠ [] := fun ended => absurd (ends ended) (by simp [break_])
    simp only [if_true, nil_ahead]
    cases fresh : freshAfter true l with
    | true =>
      obtain ⟨b, m', ⟨held, column, -, line'⟩, read⟩ := @blockLines_body indent {} m true (l ++ [x])
        next printable (fun _ => start) (by simp)
      rw [freshAfter_concat, break_] at column read
      obtain ⟨c, passed, stops⟩ := @blockLines_follows indent b m' line k next follows shallow
        fun _ => ⟨column rfl, Nat.lt_of_lt_of_le later line'⟩
      exact ⟨b, c, passed, held, read.trans stops⟩
    | false =>
      -- the one line break at the end is not part of the body, so that it is told from further ones
      obtain ⟨b, m', ⟨held, -, begun, line'⟩, read⟩ := @blockLines_body indent {} m true l
        ([x] ++ next) (fun d mem => printable d (by simp [mem])) (fun _ => start) (by simp)
      rw [fresh] at begun read
      obtain ⟨noFirst, noFurther⟩ := begun rfl
      obtain ⟨c, passed, stops⟩ := @blockLines_follows indent { b with first := [x] }
        (m'.newline 1) line k next follows shallow fun _ =>
          ⟨rfl, Nat.lt_of_lt_of_le later (Nat.le_succ_of_le line')⟩
      have last := printable x (by simp)
      refine ⟨{ b with first := [x] }, c, passed, ?_, ?_⟩
      · rw [BlockLines.held, noFirst, noFurther] at held
        have text : b.text.reverse = l := held
        simp [BlockLines.finish, text]
      · rw [literalBody_append, fresh, literalBody, literalBody, if_pos break_, List.append_assoc]
        refine read.trans ?_
        rw [List.singleton_append,
          blockLines_cons fun _ same _ => ne_return_of_isPrintable last same,
          if_pos (by decide), if_pos break_, breakValue_of_isPrintable last break_]
        exact stops

/-- A step while the indentation has to be found out. -/
theorem leadingBreaks_cons {deepest : Nat} {breaks rest : List Char} {c : Char} (h : c ≠ '\r') :
    leadingBreaks 0 deepest breaks (c :: rest) m =
      if c == ' ' then leadingBreaks 0 deepest breaks rest m.next
      else if c == '\t' then none
      else if isBreak c then
        leadingBreaks 0 (max deepest m.column) (breakValue c :: breaks) rest (m.newline 1)
      else .some (breaks, max deepest m.column, ⟨c :: rest, m⟩) := by
  rw [leadingBreaks.eq_def]
  split
  · rename_i heq
    cases heq
  · rename_i heq
    cases heq
    exact absurd rfl h
  · rename_i heq
    cases heq
    simp only [beq_self_eq_true, Bool.true_or, Bool.and_true]

theorem leadingBreaks_indentation {k deepest : Nat} {breaks rest : List Char} :
    leadingBreaks 0 deepest breaks (indentation k ++ rest) m =
      leadingBreaks 0 deepest breaks rest (m.advance k) := by
  induction k generalizing m with
  | zero => rfl
  | succ k ih =>
    have step : indentation (k + 1) ++ rest = ' ' :: (indentation k ++ rest) := rfl
    rw [step, leadingBreaks_cons (by decide), if_pos (by decide), ih, Mark.next_eq_advance,
      Mark.advance_advance, Nat.add_comm]

/-- How deep the lines are indented is found out, unless the header says so. -/
theorem leadingBreaks_text {n : Nat} {tail : List Char} {b : BlockLines} {c : Cursor}
    (printable : ∀ c ∈ l, isPrintable c = true) (some : l ≠ []) (start : m.column = 0)
    (read : blockLines false (n + indentStep) {} false
      (literalBody (n + indentStep) true l ++ tail) m = .some (b, c)) :
    ∃ breaks deepest c',
      leadingBreaks (if hidesIndent l then n + indentStep else 0) 0 []
        (literalBody (n + indentStep) true l ++ tail) m = .some (breaks, deepest, c') ∧
      blockLines false (if hidesIndent l then n + indentStep else max (max deepest (n + 1)) 1)
        { further := breaks } false c'.rest c'.mark = .some (b, c) := by
  cases hides : hidesIndent l with
  | true =>
    rw [blockLines_leadingBreaks 0 [] _ (by simp [indentStep]), Option.bind_eq_some_iff] at read
    obtain ⟨⟨breaks, deepest, c'⟩, found, read⟩ := read
    exact ⟨breaks, deepest, c', found, read⟩
  | false =>
    obtain ⟨d, l, rfl⟩ := List.exists_cons_of_ne_nil some
    have first := printable d (by simp)
    simp only [hidesIndent, List.head?_cons, Option.any_some, Bool.or_eq_false_iff] at hides
    obtain ⟨noSpace, noBreak⟩ := hides
    have noTab : (d == '\t') = false := by simpa using ne_tab_of_isPrintable first
    refine ⟨[], n + indentStep, ⟨d :: (literalBody (n + indentStep) false l ++ tail),
      m.advance (n + indentStep)⟩, ?_, ?_⟩
    · rw [literalBody, noBreak, if_neg Bool.false_ne_true, if_neg Bool.false_ne_true, if_pos rfl,
        List.append_assoc, leadingBreaks_indentation, List.cons_append,
        leadingBreaks_cons (ne_return_of_isPrintable first), noSpace, noTab, noBreak]
      simp [start]
    · rw [literalBody, noBreak, if_neg Bool.false_ne_true, if_pos rfl, List.append_assoc,
        blockLines_indentation (by simp [start]), List.cons_append] at read
      have deep : max (max (n + indentStep) (n + 1)) 1 = n + indentStep := by
        rw [indentStep]
        omega
      rw [if_neg Bool.false_ne_true, deep]
      exact read

theorem writeLiteral_eq (indent : Nat) (l : List Char) : ∃ body, body ≠ [] ∧
    writeLiteral indent l = '|' :: body ∧
    body = (literalHeader l).tail ++ ['\n'] ++ writeLiteralLines indent true l := by
  refine ⟨_, ?_, ?_, rfl⟩
  · simp
  · simp [writeLiteral, literalHeader]

/-- A text is read back from its literal block. -/
theorem readBlock_text {n : Nat} (allowed : allowsLiteral l = true) (some : l ≠ [])
    (follows : Follows n next) (ends : next = [] → endsBreak l = false) :
    ∃ c, Passed m.line next c ∧
      readBlock .literal n ⟨ahead (writeLiteral (n + indentStep) l).tail next, m⟩ =
        .some (l, c) := by
  have printable : ∀ c ∈ l, isPrintable c = true := by
    simp only [allowsLiteral, Bool.and_eq_true, List.all_eq_true] at allowed
    exact allowed.1.1
  have written : ahead (writeLiteral (n + indentStep) l).tail next =
      (literalHeader l).tail ++ '\n' :: ahead (writeLiteralLines (n + indentStep) true l) next := by
    have lines : writeLiteralLines (n + indentStep) true l ≠ [] := by
      rw [writeLiteralLines_eq]
      exact List.append_ne_nil_of_left_ne_nil (literalBody_ne_nil some) _
    obtain ⟨body, -, written, eq⟩ := writeLiteral_eq (n + indentStep) l
    rw [written, List.tail_cons, eq, append_ahead lines, List.append_assoc, List.singleton_append]
  obtain ⟨m', header, line⟩ := readBlockHeader_literalHeader l
    (ahead (writeLiteralLines (n + indentStep) true l) next) m
  obtain ⟨b, c, passed, whole, read⟩ := @blockLines_text (n + indentStep) l next (m'.newline 1)
    m.line n printable some follows (Nat.lt_add_of_pos_right (by decide)) rfl
    (Nat.lt_succ_of_le (Nat.le_of_eq line.symm)) ends
  refine ⟨c, passed, ?_⟩
  rw [written, readBlock, header]
  rw [ahead_writeLiteralLines some ends] at read ⊢
  obtain ⟨breaks, deepest, c', found, read⟩ := leadingBreaks_text printable some rfl read
  have fixed : (if (if hidesIndent l then indentStep else 0) = 0 then 0
      else if 0 ≤ (n : Int) then (n : Int).toNat + (if hidesIndent l then indentStep else 0)
      else (if hidesIndent l then indentStep else 0)) =
      if hidesIndent l then n + indentStep else 0 := by
    cases hidesIndent l <;> simp [indentStep]
  have deep (deepest : Nat) : (if (if hidesIndent l then n + indentStep else 0) = 0 then
        max (max deepest ((n : Int) + 1).toNat) 1
      else if hidesIndent l then n + indentStep else 0) =
      if hidesIndent l then n + indentStep else max (max deepest (n + 1)) 1 := by
    cases hidesIndent l
    · rfl
    · simp [indentStep]
  simp only [Option.bind_eq_bind, Option.bind_some, skipLineEnd_newline, fixed, found, deep]
  have literal : (Style.literal == Style.folded) = false := rfl
  rw [literal, read, Option.bind_some, whole]
  rfl

end Block

end RoomAudio.Yaml
