import RoomAudio.Proofs.Yaml.Margin.Block
import RoomAudio.Proofs.Yaml.Margin.Plain
import RoomAudio.Proofs.Yaml.Margin.Property
import RoomAudio.Proofs.Yaml.Margin.Quoted

/-!
# Readers of an indented text

Spaces in front of a text move its first line to the right and leave the other lines where they are.
A reader finds the same at both places. Where it compares columns, it does so on later lines, or it
asks whether a line begins.

## Main definitions

* `Yaml.Mark.indent`, `Yaml.Cursor.indent` — the same place in the indented text.
* `Yaml.indented` — what a reader finds in the indented text.
* `Yaml.Falls` — a plain scalar that ends since its lines have to be indented deeper.
-/

namespace RoomAudio.Yaml

/-! ## Places -/

namespace Mark

/-- The place of the same character when `k` spaces stand in front of the text. -/
def indent (m : Mark) (k : Nat) : Mark :=
  { m with index := m.index + k, column := if m.line = 0 then m.column + k else m.column }

variable {m : Mark} {k : Nat}

@[simp] theorem next_indent : (m.indent k).next = m.next.indent k := by
  grind [indent, next]

@[simp] theorem advance_indent (n : Nat) : (m.indent k).advance n = (m.advance n).indent k := by
  grind [indent, advance]

@[simp] theorem newline_indent (n : Nat) : (m.indent k).newline n = (m.newline n).indent k := by
  grind [indent, newline]

@[simp] theorem line_indent : (m.indent k).line = m.line := rfl

end Mark

namespace Cursor

def indent (c : Cursor) (k : Nat) : Cursor := ⟨c.rest, c.mark.indent k⟩

variable {c : Cursor} {k : Nat}

@[simp] theorem rest_indent : (c.indent k).rest = c.rest := rfl

@[simp] theorem mark_indent : (c.indent k).mark = c.mark.indent k := rfl

@[simp] theorem skip_indent (n : Nat) : (c.indent k).skip n = (c.skip n).indent k := by
  simp [skip, indent]

end Cursor

def indented {α : Type} (k : Nat) (o : Option (α × Cursor)) : Option (α × Cursor) :=
  o.map fun p => (p.1, p.2.indent k)

def PlainScalar.indent (p : PlainScalar) (k : Nat) : PlainScalar :=
  { p with after := p.after.indent k }

variable {k : Nat} {c : Cursor} {l : List Char} {m : Mark}

@[simp] theorem indented_none {α : Type} : indented (α := α) k none = none := rfl

@[simp] theorem indented_some {α : Type} (a : α) :
    indented k (some (a, c)) = some (a, c.indent k) := rfl

/-- Readers one after the other find the same if each of them does. -/
theorem bind_indented {α β : Type} {o : Option (α × Cursor)}
    {f g : α × Cursor → Option (β × Cursor)}
    (next : ∀ a c, f (a, c.indent k) = indented k (g (a, c))) :
    indented k o >>= f = indented k (o >>= g) := by
  cases o with
  | none => rfl
  | some p => exact next p.1 p.2

theorem ite_indented {α : Type} {p : Prop} [Decidable p] {x y x' y' : Option (α × Cursor)}
    (yes : x = indented k x') (no : y = indented k y') :
    (if p then x else y) = indented k (if p then x' else y') := by
  split
  · exact yes
  · exact no

/-! ## Gaps -/

theorem skipSpacing_indent (c : Cursor) :
    skipSpacing c.rest (c.mark.indent k) = (skipSpacing c.rest c.mark).indent k := by
  obtain ⟨l, m⟩ := c
  fun_induction skipSpacing l m <;> grind [skipSpacing, Mark.next_indent, Cursor.indent]

theorem skipLine_indent (l : List Char) (m : Mark) :
    skipLine l (m.indent k) = (skipLine l m).indent k := by
  fun_induction skipLine l m <;> grind [skipLine, Mark.next_indent, Cursor.indent]

theorem skipBreak_indent (l : List Char) (m : Mark) :
    skipBreak l (m.indent k) = (skipBreak l m).indent k := by
  fun_cases skipBreak l m <;> grind [skipBreak, Mark.newline_indent, Cursor.indent]

theorem skipComment_indent (c : Cursor) :
    skipComment (c.indent k) = (skipComment c).indent k := by
  grind [skipComment, skipLine_indent, Cursor.indent]

theorem skipLineEnd_indent (c : Cursor) :
    skipLineEnd c.rest (c.mark.indent k) = (skipLineEnd c.rest c.mark).map (·.indent k) := by
  rw [skipLineEnd_eq, skipLineEnd_eq, skipSpacing_indent, skipComment_indent]
  dsimp only [Cursor.rest_indent, Cursor.mark_indent]
  rw [skipBreak_indent, apply_ite (Option.map _)]
  rfl

/-- Behind the end of a line there is a later line, or nothing. -/
theorem later_of_skipLineEnd {d : Cursor} (found : skipLineEnd l m = some d) :
    0 < d.mark.line ∨ d.rest = [] := by
  have past (l : List Char) (m : Mark) (breaks : startsBreak l = true) :
      0 < (skipBreak l m).mark.line ∨ (skipBreak l m).rest = [] := by
    fun_cases skipBreak l m <;> grind [startsBreak, Mark.newline]
  rw [skipLineEnd_eq] at found
  dsimp only at found
  split at found
  · rename_i breaks
    cases found
    exact past _ _ breaks
  · cases found

/-- Gaps in front of a token are passed alike. A byte order mark is one at the beginning of the text
only if the text is not indented. -/
theorem gapFrom_indent (flow allowed comment : Bool) (more : 0 < k)
    (first : m.line = 0 → m.column = 0 → l.head? ≠ some byteOrderMark) :
    Scanner.gapFrom flow allowed comment l (m.indent k) =
      ((Scanner.gapFrom flow allowed comment l m).1.indent k,
        (Scanner.gapFrom flow allowed comment l m).2) := by
  fun_induction Scanner.gapFrom flow allowed comment l m <;>
    grind [Scanner.gapFrom, Mark.next, Mark.newline, Mark.indent, Cursor.indent]

/-! ## Names and tags -/

theorem readWord_indent (c : Cursor) :
    readWord (c.indent k) = ((readWord c).1, (readWord c).2.indent k) := by
  simp [readWord]

theorem readName_indent (c : Cursor) : readName (c.indent k) = indented k (readName c) := by
  rw [readName, readName, readWord_indent]
  exact ite_indented rfl rfl

theorem readHandle_indent (directive : Bool) (c : Cursor) :
    readHandle directive (c.indent k) = indented k (readHandle directive c) := by
  rw [readHandle_eq, readHandle_eq, Cursor.skip_indent, readWord_indent]
  exact ite_indented (ite_indented (by rw [Cursor.skip_indent]; rfl) (ite_indented rfl rfl)) rfl

theorem uriFrom_indent (verbatim : Bool) (text : List Char) (missing code : Nat) (l : List Char)
    (m : Mark) : uriFrom verbatim text missing code l (m.indent k) =
      indented k (uriFrom verbatim text missing code l m) := by
  fun_induction uriFrom verbatim text missing code l m with
  | case3 text missing code a b rest m lastByte firstByte last further =>
    rw [uriFrom, Mark.advance_indent]
    cases Json.hexValue? a <;> cases Json.hexValue? b <;> try rfl
    rename_i high low
    refine ite_indented ?_ ?_
    · cases leadByte? (16 * high + low) with
      | none => rfl
      | some lead => exact ite_indented (lastByte _) (firstByte _ _)
    · exact ite_indented (ite_indented (last _ _) (further _ _)) rfl
  | _ => grind [uriFrom, Mark.next_indent, Cursor.indent, indented_none, indented_some]

theorem readUri_indent (verbatim : Bool) (c : Cursor) :
    readUri verbatim (c.indent k) = indented k (readUri verbatim c) := by
  rw [readUri, Cursor.rest_indent, Cursor.mark_indent, uriFrom_indent]
  exact bind_indented fun text c => ite_indented rfl rfl

theorem readTagParts_indent (c : Cursor) :
    readTagParts (c.indent k) = indented k (readTagParts c) := by
  rw [readTagParts_eq, readTagParts_eq]
  refine ite_indented ?_ ?_
  · rw [Cursor.skip_indent, readUri_indent]
    exact bind_indented fun suffix c => ite_indented (by rw [Cursor.skip_indent]; rfl) rfl
  · rw [readHandle_indent]
    refine bind_indented fun handle c => ite_indented ?_ ?_
    · rw [readUri_indent]
      exact bind_indented fun suffix c => rfl
    · rw [Cursor.rest_indent, Cursor.mark_indent, uriFrom_indent]
      exact bind_indented fun more c => rfl

theorem readTag_indent (flow : Bool) (c : Cursor) :
    readTag flow (c.indent k) = indented k (readTag flow c) := by
  rw [readTag, readTagParts_indent]
  exact bind_indented fun tag c => ite_indented rfl rfl

/-! ## Directives -/

theorem readVersionNumber_indent (c : Cursor) :
    readVersionNumber (c.indent k) = indented k (readVersionNumber c) :=
  ite_indented rfl (by rw [Cursor.rest_indent, Cursor.skip_indent]; rfl)

theorem readVersion_indent (c : Cursor) :
    readVersion (c.indent k) = indented k (readVersion c) := by
  rw [readVersion_eq, readVersion_eq, Cursor.rest_indent, Cursor.mark_indent, skipSpacing_indent,
    readVersionNumber_indent]
  refine bind_indented fun major c => ite_indented ?_ rfl
  rw [Cursor.skip_indent, readVersionNumber_indent]
  exact bind_indented fun minor c => rfl

theorem readTagDirective_indent (c : Cursor) :
    readTagDirective (c.indent k) = indented k (readTagDirective c) := by
  rw [readTagDirective_eq, readTagDirective_eq, Cursor.rest_indent, Cursor.mark_indent,
    skipSpacing_indent, readHandle_indent]
  refine bind_indented fun handle c => ite_indented ?_ rfl
  rw [readTagStart, Cursor.rest_indent, Cursor.mark_indent, skipSpacing_indent, readUri_indent]
  exact bind_indented fun start c => ite_indented rfl rfl

theorem readNamed_indent (name : List Char) (c : Cursor) :
    readNamed name (c.indent k) = indented k (readNamed name c) := by
  rw [readNamed, readVersion_indent, readTagDirective_indent]
  exact ite_indented rfl (ite_indented rfl rfl)

/-- Directives do not depend on the indentation. -/
theorem readDirective_indent (c : Cursor) :
    readDirective (c.indent k) = indented k (readDirective c) := by
  rw [readDirective_eq, readDirective_eq, readWord_indent]
  refine ite_indented rfl ?_
  rw [readNamed_indent]
  refine bind_indented fun token c => ?_
  dsimp only [Cursor.rest_indent, Cursor.mark_indent]
  rw [skipLineEnd_indent]
  cases skipLineEnd c.rest c.mark <;> rfl

/-! ## Scalars in quotes -/

/-- Behind its quote a scalar does not depend on the indentation of its line. -/
theorem singleQuotedFrom_indent (text : List Char) (gap : Folding) (l : List Char) (m : Mark)
    (inside : 0 < m.line ∨ 0 < m.column) :
    singleQuotedFrom text gap l (m.indent k) = indented k (singleQuotedFrom text gap l m) := by
  fun_induction singleQuotedFrom text gap l m <;>
    grind [singleQuotedFrom, Mark.next, Mark.newline, Mark.indent, Mark.advance, Cursor.indent,
      indented_none, indented_some]

/-- Behind its quote a scalar does not depend on the indentation of its line, whatever is escaped.
-/
theorem doubleQuotedFrom_indent (text : List Char) (gap : Folding) (state : EscapeState)
    (l : List Char) (m : Mark) (inside : 0 < m.line ∨ 0 < m.column) :
    doubleQuotedFrom text gap state l (m.indent k) =
      indented k (doubleQuotedFrom text gap state l m) := by
  fun_induction doubleQuotedFrom text gap state l m <;>
    grind [doubleQuotedFrom, Mark.next, Mark.newline, Mark.indent, Cursor.indent, indented_none,
      indented_some]

/-! ## Plain scalars -/

section Plain

variable {flow fresh : Bool} {indent i j : Int} {text : List Char} {gap : Folding} {p : PlainScalar}

/-- Tabs are only looked at on later lines, which keep their columns. -/
theorem misindents_indent (a : Char) (broken : gap.broken = true → 0 < m.line) :
    misindents indent gap a (m.indent k) = misindents indent gap a m := by
  grind [misindents, Mark.indent]

/-- What ends a plain scalar is the same: markers stand at the beginning of later lines. -/
theorem interrupts_indent (inside : 0 < m.line ∨ 0 < m.column ∨ startsMarker l = false)
    (broken : gap.broken = true → 0 < m.line) :
    interrupts flow indent gap fresh l (m.indent k) = interrupts flow indent gap fresh l m := by
  grind [interrupts, Mark.indent]

/-- Where a plain scalar is broken into lines the reader has come to a later line. -/
theorem plainFrom_indent (inside : 0 < m.line ∨ 0 < m.column ∨ startsMarker l = false)
    (broken : gap.broken = true → 0 < m.line) :
    plainFrom flow indent text gap fresh l (m.indent k) =
      (plainFrom flow indent text gap fresh l m).map (·.indent k) := by
  induction l using break_induction generalizing text gap fresh m with
  | nil => simp [plainFrom, PlainScalar.indent, Cursor.indent]
  | double rest ih =>
    rw [plainFrom, plainFrom, Mark.newline_indent]
    exact ih (.inl (Nat.succ_pos _)) fun _ => Nat.succ_pos _
  | single c rest apart ih =>
    have spaced : (gap.space c).broken = true → 0 < m.next.line := by
      rw [Folding.space]
      split <;> exact broken
    have column : 0 < m.next.column := Nat.succ_pos _
    rw [plainFrom_cons_apart apart, plainFrom_cons_apart apart, interrupts_indent inside broken,
      misindents_indent c broken, Mark.newline_indent, Mark.next_indent,
      ih (.inl (Nat.succ_pos _)) fun _ => Nat.succ_pos _, ih (.inr (.inl column)) spaced,
      ih (.inr (.inl column)) (by simp)]
    repeat' split
    all_goals rfl

theorem later_of_plainFrom (found : plainFrom flow indent text gap fresh l m = some p)
    (broken : gap.broken = true → 0 < m.line) : p.broken = true → 0 < p.after.mark.line := by
  fun_induction plainFrom flow indent text gap fresh l m with
  | case2 text gap fresh rest m ih => exact ih found fun _ => Nat.succ_pos _
  | case3 text gap fresh c rest m apart breaks ih => exact ih found fun _ => Nat.succ_pos _
  | _ => grind [Folding.space, Mark.next]

/-- A plain scalar whose lines have to be indented up to column `j`, and that ends at a line which
would belong to it if they had to be indented up to column `i` only. -/
structure Falls (i j : Int) (flow : Bool) (p : PlainScalar) : Prop where
  broken : p.broken = true
  outside : flow = false
  deep : i ≤ p.after.mark.column
  shallow : p.after.mark.column < j
  starts : ∃ a tail, p.after.rest = a :: tail ∧ isGap a = false ∧ a ≠ '#'

/-- A plain scalar is read alike where its lines need not be indented as deep, unless it falls. -/
theorem plainFrom_of_le (le : i ≤ j) (found : plainFrom flow j text gap fresh l m = some p) :
    plainFrom flow i text gap fresh l m = some p ∨ Falls i j flow p := by
  induction l using break_induction generalizing text gap fresh m with
  | nil =>
    rw [plainFrom] at found ⊢
    exact .inl found
  | double rest ih =>
    rw [plainFrom] at found ⊢
    exact ih found
  | single c rest apart ih =>
    rw [plainFrom_cons_apart apart] at found ⊢
    split at found
    · rename_i breaks
      rw [if_pos breaks]
      exact ih found
    · rename_i unbroken
      rw [if_neg unbroken]
      split at found
      · rename_i spacing
        rw [if_pos spacing]
        grind [misindents]
      · rename_i visible
        rw [if_neg visible]
        have noGap : isGap c = false := by
          rw [isGap, Bool.eq_false_iff.mpr visible, Bool.eq_false_iff.mpr unbroken]
          rfl
        split at found
        · cases found
          by_cases stops : interrupts flow i gap fresh (c :: rest) m = true
          · exact .inl (if_pos stops)
          · exact .inr (by grind [Falls, interrupts])
        · rename_i goes
          have goes' : ¬interrupts flow i gap fresh (c :: rest) m = true := by
            grind [interrupts]
          rw [if_neg goes']
          split at found
          · cases found
          · rename_i fits
            rw [if_neg fits]
            split at found
            · rename_i ends
              exact .inl (by rw [if_pos ends]; exact found)
            · rename_i further
              rw [if_neg further]
              exact ih found

end Plain

/-! ## Block scalars -/

theorem readIndentDigit_indent (c : Cursor) :
    readIndentDigit (c.indent k) = indented k (readIndentDigit c) := by
  rw [readIndentDigit, readIndentDigit, Cursor.rest_indent, Cursor.skip_indent]
  split
  · exact ite_indented rfl (ite_indented rfl rfl)
  · rfl

theorem readChomping_indent (c : Cursor) :
    readChomping (c.indent k) = ((readChomping c).1, (readChomping c).2.indent k) := by
  rw [readChomping, readChomping, Cursor.rest_indent, Cursor.skip_indent]
  repeat' split
  all_goals rfl

theorem readBlockHeader_indent (c : Cursor) :
    readBlockHeader (c.indent k) = indented k (readBlockHeader c) := by
  rw [readBlockHeader, readBlockHeader, Cursor.rest_indent, Cursor.skip_indent,
    readIndentDigit_indent, readIndentDigit_indent]
  split
  · split
    · exact bind_indented fun indent c => rfl
    · exact bind_indented fun indent c => ite_indented rfl (by rw [readChomping_indent]; rfl)
  · rfl

/-- The lines of a block scalar are later ones, so the indentation does not reach them. -/
theorem leadingBreaks_indent (indent deepest : Nat) (breaks l : List Char) (later : 0 < m.line) :
    leadingBreaks indent deepest breaks l (m.indent k) =
      (leadingBreaks indent deepest breaks l m).map fun p => (p.1, p.2.1, p.2.2.indent k) := by
  fun_induction leadingBreaks indent deepest breaks l m <;>
    grind [leadingBreaks, Mark.next, Mark.newline, Mark.indent, Cursor.indent]

theorem line_of_leadingBreaks {indent deepest deepest' : Nat} {breaks breaks' : List Char}
    (found : leadingBreaks indent deepest breaks l m = some (breaks', deepest', c)) :
    m.line ≤ c.mark.line := by
  fun_induction leadingBreaks indent deepest breaks l m <;> grind [Mark.next, Mark.newline]

/-- The lines of a block scalar are later ones, so the indentation does not reach them. -/
theorem blockLines_indent (folded : Bool) (indent : Nat) (b : BlockLines) (inLine : Bool)
    (l : List Char) (later : 0 < m.line) :
    blockLines folded indent b inLine l (m.indent k) =
      indented k (blockLines folded indent b inLine l m) := by
  fun_induction blockLines folded indent b inLine l m <;>
    grind [blockLines, Mark.next, Mark.newline, Mark.indent, Cursor.indent, indented_none,
      indented_some]

theorem readBlockLines_indent (style : Style) (blockIndent : Int) (fixed : Nat)
    (later : 0 < c.mark.line ∨ c.rest = []) :
    readBlockLines style blockIndent fixed (c.indent k) =
      indented k (readBlockLines style blockIndent fixed c) := by
  rw [readBlockLines, readBlockLines]
  rcases later with later | past
  · rw [Cursor.rest_indent, Cursor.mark_indent, leadingBreaks_indent _ _ _ _ later]
    cases found : leadingBreaks fixed 0 [] c.rest c.mark with
    | none => rfl
    | some r => exact blockLines_indent _ _ _ _ _ (later.trans_le (line_of_leadingBreaks found))
  · rw [Cursor.rest_indent, past]
    rfl

/-- Counted from the same column, a block scalar does not depend on the indentation of its header.
-/
theorem readBlock_indent (style : Style) (blockIndent : Int) (c : Cursor) :
    readBlock style blockIndent (c.indent k) = indented k (readBlock style blockIndent c) := by
  rw [readBlock_eq, readBlock_eq, readBlockHeader_indent]
  refine bind_indented fun header c => ?_
  dsimp only [Cursor.rest_indent, Cursor.mark_indent]
  rw [skipLineEnd_indent]
  cases line : skipLineEnd c.rest c.mark with
  | none => rfl
  | some d =>
    change readBlockLines _ _ _ (d.indent k) >>= _ = indented k (readBlockLines _ _ _ d >>= _)
    rw [readBlockLines_indent _ _ _ (later_of_skipLineEnd line)]
    exact bind_indented fun b c => rfl

end RoomAudio.Yaml
