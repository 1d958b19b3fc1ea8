import RoomAudio.Proofs.Yaml.Literal
import RoomAudio.Proofs.Yaml.Margin.Plain
import RoomAudio.Proofs.Yaml.Margin.Property

/-!
# Block scalars inside of margins

A block scalar that goes on to the end of the text goes on into the margin. Then its lines either
stay what they are, or blank characters are added to them.

## Main definitions

* `Yaml.BlockLines.Grown` — lines to which only blank characters have been added.
* `Yaml.readBlock_near` — a block scalar inside of margins is that of the text alone, or it ends
  with a blank character.
-/

namespace RoomAudio.Yaml

open Margin
open Text (isBlank)

variable {w : Margin} {folded inLine : Bool} {indent deepest : Nat} {breaks l rest text : List Char}
  {a : Char} {m : Mark} {b : BlockLines} {c d : Cursor}

/-! ## The header -/

theorem chompingOf?_of_isBlank (blank : isBlank a = true) : chompingOf? a = none := by
  simp [chompingOf?, beq_false_of_isBlank blank (d := '+') rfl,
    beq_false_of_isBlank blank (d := '-') rfl]

theorem readIndentDigit_of_isBlank (blank : ∀ a ∈ c.rest, isBlank a = true) :
    readIndentDigit c = some (0, c) := by
  unfold readIndentDigit
  split
  · rename_i d tail rest
    have first : isBlank d = true := blank d (by simp [rest])
    have digit := not_isDigit_of_isBlank first
    simp [beq_false_of_isBlank first (d := '0') rfl, digit]
  · rfl

theorem readIndentDigit_follows (c : Cursor) :
    w.Follows c.rest (readIndentDigit c) (readIndentDigit (w.cursor c)) := by
  obtain ⟨_ | ⟨a, l⟩, m⟩ := c
  · rw [readIndentDigit_of_isBlank (c := w.cursor ⟨[], m⟩) w.blank]
    exact .found (List.suffix_refl _)
  · simp only [readIndentDigit, cursor, List.cons_append]
    split
    · exact .nothing
    · split
      · exact .found (c := ⟨l, m.advance 1⟩) (List.suffix_cons a l)
      · exact .found (List.suffix_refl _)

theorem readChomping_suffix (c : Cursor) : (readChomping c).2.rest <:+ c.rest := by
  unfold readChomping
  split
  · split
    · exact List.drop_suffix _ _
    · exact List.suffix_refl _
  · exact List.suffix_refl _

theorem readChomping_cursor (c : Cursor) :
    readChomping (w.cursor c) = ((readChomping c).1, w.cursor (readChomping c).2) := by
  obtain ⟨_ | ⟨a, l⟩, m⟩ := c
  · cases back : w.back with
    | nil => simp [readChomping, cursor, back]
    | cons a l =>
      have blank := w.blank a (by simp [back])
      simp [readChomping, cursor, back, chompingOf?_of_isBlank blank]
  · simp only [readChomping, cursor, List.cons_append]
    split <;> simp [Cursor.skip]

theorem readBlockHeader_of_isBlank (blank : ∀ a ∈ c.rest, isBlank a = true) :
    readBlockHeader c = some ({}, c) := by
  unfold readBlockHeader
  split
  · rename_i a tail rest
    rw [chompingOf?_of_isBlank (blank a (by simp [rest]))]
    simp [readIndentDigit_of_isBlank blank]
  · rfl

theorem readBlockHeader_follows (c : Cursor) :
    w.Follows c.rest (readBlockHeader c) (readBlockHeader (w.cursor c)) := by
  obtain ⟨_ | ⟨a, l⟩, m⟩ := c
  · rw [readBlockHeader_of_isBlank (c := w.cursor ⟨[], m⟩) w.blank]
    exact .found (List.suffix_refl _)
  · simp only [readBlockHeader, cursor, List.cons_append]
    split
    · refine .bind ((readIndentDigit_follows ⟨l, m.advance 1⟩).mono (List.suffix_cons a l)) ?_
      intro digit c within
      exact .found within
    · refine .bind (readIndentDigit_follows ⟨a :: l, m⟩) ?_
      intro digit c within
      dsimp only
      split
      · exact .found within
      · rw [readChomping_cursor]
        exact .found ((readChomping_suffix c).trans within)

/-! ## The lines in front -/

theorem leadingBreaks_cons_apart (apart : Apart a rest) :
    leadingBreaks indent deepest breaks (a :: rest) m =
      let inside := indent == 0 || m.column < indent
      if a == ' ' && inside then leadingBreaks indent deepest breaks rest m.next
      else if a == '\t' && inside then none
      else if isBreak a then
        leadingBreaks indent (max deepest m.column) (breakValue a :: breaks) rest (m.newline 1)
      else some (breaks, max deepest m.column, ⟨a :: rest, m⟩) := by
  rw [leadingBreaks.eq_3 _ _ _ _ _ _ apart]

/-- Passing what stands in front of the first line ends in front of a character that is left. -/
theorem leadingBreaks_append (ends : EndsVisibly l) (more : l ≠ []) {breaks' : List Char}
    {deepest' : Nat} (found : leadingBreaks indent deepest breaks (l ++ w.back) (w.mark m) =
      some (breaks', deepest', d)) :
    ∃ c, leadingBreaks indent deepest breaks l m = some (breaks', deepest', c) ∧
      d = w.cursor c ∧ c.rest ≠ [] ∧ c.rest <:+ l := by
  induction l using break_induction generalizing deepest breaks m with
  | nil => exact absurd rfl more
  | double rest ih =>
    have later : rest ≠ [] := by
      rintro rfl
      exact absurd (ends.tail.last) (by decide)
    rw [List.cons_append, List.cons_append, leadingBreaks, mark_newline] at found
    rw [leadingBreaks]
    obtain ⟨c, same, place, left, within⟩ := ih ends.tail.tail later found
    exact ⟨c, same, place, left, within.trans (List.suffix_append ['\r', '\n'] rest)⟩
  | single a rest apart ih =>
    have next {deepest breaks m} (blank : isBlank a = true)
        (found : leadingBreaks indent deepest breaks (rest ++ w.back) (w.mark m) =
          some (breaks', deepest', d)) :
        ∃ c, leadingBreaks indent deepest breaks rest m = some (breaks', deepest', c) ∧
          d = w.cursor c ∧ c.rest ≠ [] ∧ c.rest <:+ a :: rest := by
      have later : rest ≠ [] := by
        rintro rfl
        rw [ends.last] at blank
        cases blank
      obtain ⟨c, same, place, left, within⟩ := ih ends.tail later found
      exact ⟨c, same, place, left, within.trans (List.suffix_cons a rest)⟩
    rw [List.cons_append, leadingBreaks_cons_apart (apart_append apart ends), column_mark,
      mark_next, mark_newline] at found
    rw [leadingBreaks_cons_apart apart]
    dsimp only at found ⊢
    split at found
    · rename_i space
      rw [if_pos space]
      have blank : a = ' ' := by grind
      exact next (by rw [blank]; rfl) found
    rename_i noSpace
    rw [if_neg noSpace]
    split at found
    · cases found
    rename_i noTab
    rw [if_neg noTab]
    split at found
    · rename_i breaks
      rw [if_pos breaks]
      exact next (isBlank_of_isBreak breaks) found
    · rename_i unbroken
      cases found
      exact ⟨_, if_neg unbroken, rfl, by simp, List.suffix_refl _⟩

theorem isBlank_breakValue (breaks : isBreak a = true) : isBlank (breakValue a) = true := by
  unfold breakValue
  split
  · exact isBlank_of_isBreak breaks
  · rfl

/-- What is passed in front of a block of blank lines is blank. -/
theorem leadingBreaks_of_isBlank {breaks' : List Char} {deepest' : Nat}
    (blank : ∀ a ∈ breaks, isBlank a = true)
    (found : leadingBreaks indent deepest breaks l m = some (breaks', deepest', d)) :
    (∀ a ∈ breaks', isBlank a = true) ∧ Cursor.Reaches ⟨l, m⟩ d := by
  have cons {a : Char} (first : isBlank a = true) {breaks : List Char}
      (blank : ∀ a ∈ breaks, isBlank a = true) : ∀ b ∈ a :: breaks, isBlank b = true :=
    List.forall_mem_cons.mpr ⟨first, blank⟩
  fun_induction leadingBreaks indent deepest breaks l m with
  | case1 => cases found; exact ⟨blank, .refl _⟩
  | case2 deepest breaks m rest ih =>
    obtain ⟨all, reaches⟩ := ih (cons rfl blank) found
    exact ⟨all, reaches.cons_cons_newline⟩
  | case3 deepest breaks m a rest apart inside space ih =>
    obtain ⟨all, reaches⟩ := ih blank found
    exact ⟨all, reaches.cons⟩
  | case4 => cases found
  | case5 deepest breaks m a rest apart inside space tab breaks' ih =>
    obtain ⟨all, reaches⟩ := ih (cons (isBlank_breakValue breaks') blank) found
    exact ⟨all, reaches.cons_newline⟩
  | case6 => cases found; exact ⟨blank, .refl _⟩

/-! ## The lines -/

namespace BlockLines

/-- Lines to which only blank characters have been added, after the given text. -/
structure Grown (text : List Char) (b : BlockLines) : Prop where
  added : ∃ more, b.text = more ++ text ∧ ∀ a ∈ more, isBlank a = true
  first : ∀ a ∈ b.first, isBlank a = true
  further : ∀ a ∈ b.further, isBlank a = true

namespace Grown

theorem of_eq (first : b.first = []) (further : b.further = []) : b.Grown b.text where
  added := ⟨[], rfl, by simp⟩
  first := by simp [first]
  further := by simp [further]

theorem cons (h : b.Grown text) (blank : isBlank a = true) :
    ({ b with text := a :: b.text } : BlockLines).Grown text := by
  obtain ⟨more, same, all⟩ := h.added
  exact ⟨⟨a :: more, congrArg (a :: ·) same, List.forall_mem_cons.mpr ⟨blank, all⟩⟩, h.first,
    h.further⟩

theorem lineBreak (h : b.Grown text) (blank : isBlank a = true) :
    ({ b with first := [a] } : BlockLines).Grown text :=
  ⟨h.added, by simpa using blank, h.further⟩

theorem blankLine (h : b.Grown text) (blank : isBlank a = true) :
    ({ b with further := a :: b.further } : BlockLines).Grown text :=
  ⟨h.added, h.first, List.forall_mem_cons.mpr ⟨blank, h.further⟩⟩

theorem beginLine (h : b.Grown text) (folded spaced : Bool) :
    (b.beginLine folded spaced).Grown text := by
  obtain ⟨more, same, all⟩ := h.added
  have lead : ∃ lead, (b.beginLine folded spaced).text = b.further ++ lead ++ b.text ∧
      ∀ a ∈ lead, isBlank a = true := by
    refine ⟨_, rfl, ?_⟩
    split
    · split
      · simp [isBlank]
      · simp
    · exact h.first
  obtain ⟨lead, begun, blank⟩ := lead
  refine ⟨⟨b.further ++ lead ++ more, by rw [begun, same]; simp, ?_⟩,
    by simp [BlockLines.beginLine], by simp [BlockLines.beginLine]⟩
  intro a mem
  rcases List.mem_append.mp mem with mem | mem
  · rcases List.mem_append.mp mem with mem | mem
    · exact h.further a mem
    · exact blank a mem
  · exact all a mem

/-- The scalar of lines that have grown is the text that was there, or it ends with a blank
character. -/
theorem finish (h : b.Grown text) (chomping : Chomping) :
    b.finish chomping = text.reverse ∨ trailsBlank (b.finish chomping) = true := by
  obtain ⟨more, same, all⟩ := h.added
  obtain ⟨added, reads, blank⟩ : ∃ added, b.finish chomping = (added ++ text).reverse ∧
      ∀ a ∈ added, isBlank a = true := by
    cases chomping with
    | strip => exact ⟨more, by rw [BlockLines.finish, same], all⟩
    | clip =>
      refine ⟨b.first ++ more, by rw [BlockLines.finish, same, List.append_assoc], ?_⟩
      exact List.forall_mem_append.mpr ⟨h.first, all⟩
    | keep =>
      refine ⟨b.further ++ b.first ++ more, by simp [BlockLines.finish, same], ?_⟩
      exact List.forall_mem_append.mpr ⟨List.forall_mem_append.mpr ⟨h.further, h.first⟩, all⟩
  cases added with
  | nil => exact .inl reads
  | cons a added => exact .inr (by rw [reads]; exact trailsBlank_reverse_cons (blank a (by simp)))

end Grown

end BlockLines

theorem blockLines_cons_apart (apart : Apart a rest) :
    blockLines folded indent b inLine (a :: rest) m =
      if inLine then
        if isBreak a then
          blockLines folded indent { b with first := [breakValue a] } false rest (m.newline 1)
        else blockLines folded indent { b with text := a :: b.text } true rest m.next
      else if a == ' ' && m.column < indent then blockLines folded indent b false rest m.next
      else if a == '\t' && m.column < indent then none
      else if isBreak a then
        blockLines folded indent { b with further := breakValue a :: b.further } false rest
          (m.newline 1)
      else if m.column = indent then
        let b := b.beginLine folded (isSpacing a)
        blockLines folded indent { b with text := a :: b.text } true rest m.next
      else some (b, ⟨a :: rest, m⟩) := by
  rw [blockLines.eq_3 _ _ _ _ _ _ _ apart]

theorem reaches_blockLines {b' : BlockLines}
    (found : blockLines folded indent b inLine l m = some (b', d)) : Cursor.Reaches ⟨l, m⟩ d := by
  fun_induction blockLines folded indent b inLine l m with
  | case1 => cases found; exact .refl _
  | case2 b rest m ih => exact (ih found).cons_cons_newline
  | case3 b inLine rest m noLine ih => exact (ih found).cons_cons_newline
  | case4 b a rest m apart breaks ih => exact (ih found).cons_newline
  | case5 b a rest m apart unbroken ih => exact (ih found).cons
  | case6 b inLine a rest m apart noLine space ih => exact (ih found).cons
  | case7 => cases found
  | case8 b inLine a rest m apart noLine space tab breaks ih => exact (ih found).cons_newline
  | case9 b inLine a rest m apart noLine space tab unbroken column begun ih =>
    exact (ih found).cons
  | case10 => cases found; exact .refl _

/-- The lines of a margin add blank characters only. -/
theorem grown_of_blockLines {b' : BlockLines} (blank : ∀ a ∈ l, isBlank a = true)
    (grown : b.Grown text) (found : blockLines folded indent b inLine l m = some (b', d)) :
    b'.Grown text := by
  fun_induction blockLines folded indent b inLine l m with
  | case1 => cases found; exact grown
  | case2 b rest m ih => exact ih (fun a mem => blank a (by simp [mem])) (grown.lineBreak rfl) found
  | case3 b inLine rest m noLine ih =>
    exact ih (fun a mem => blank a (by simp [mem])) (grown.blankLine rfl) found
  | case4 b a rest m apart breaks ih =>
    have first := isBlank_breakValue breaks
    exact ih (fun a mem => blank a (by simp [mem])) (grown.lineBreak first) found
  | case5 b a rest m apart unbroken ih =>
    have first : isBlank a = true := blank a (by simp)
    exact ih (fun a mem => blank a (by simp [mem])) (grown.cons first) found
  | case6 b inLine a rest m apart noLine space ih =>
    exact ih (fun a mem => blank a (by simp [mem])) grown found
  | case7 => cases found
  | case8 b inLine a rest m apart noLine space tab breaks ih =>
    have first := isBlank_breakValue breaks
    exact ih (fun a mem => blank a (by simp [mem])) (grown.blankLine first) found
  | case9 b inLine a rest m apart noLine space tab unbroken column begun ih =>
    have first : isBlank a = true := blank a (by simp)
    exact ih (fun a mem => blank a (by simp [mem])) ((grown.beginLine folded _).cons first) found
  | case10 => cases found; exact grown

/-- Lines that have been read inside of margins: those of the text alone, or those of the whole
text, grown in the margin. -/
def BlockLines.Near (w : Margin) (l : List Char) (x : Option (BlockLines × Cursor))
    (b : BlockLines) (d : Cursor) : Prop :=
  ∃ b' c, x = some (b', c) ∧ w.Near c d ∧ c.rest <:+ l ∧
    (b = b' ∨ c.rest = [] ∧ b'.first = [] ∧ b'.further = [] ∧ b.Grown b'.text)

theorem BlockLines.Near.mono {x : Option (BlockLines × Cursor)} {l' : List Char}
    (h : BlockLines.Near w l x b d) (within : l <:+ l') : BlockLines.Near w l' x b d := by
  obtain ⟨b', c, same, near, suffix, lines⟩ := h
  exact ⟨b', c, same, near, suffix.trans within, lines⟩

theorem BlockLines.Near.ite {p : Prop} [Decidable p] {x y x' y' : Option (BlockLines × Cursor)}
    (found : (if p then x' else y') = some (b, d))
    (yes : p → x' = some (b, d) → BlockLines.Near w l x b d)
    (no : ¬p → y' = some (b, d) → BlockLines.Near w l y b d) :
    BlockLines.Near w l (if p then x else y) b d := by
  split
  · rename_i holds
    exact yes holds ((if_pos holds).symm.trans found)
  · rename_i fails
    exact no fails ((if_neg fails).symm.trans found)

/-- Inside of margins a block may only grow by what is blank. -/
theorem blockLines_near {b' : BlockLines} (ends : EndsVisibly l) (more : l ≠ [])
    (begun : inLine = true → b.first = [] ∧ b.further = [])
    (found : blockLines folded indent b inLine (l ++ w.back) (w.mark m) = some (b', d)) :
    BlockLines.Near w l (blockLines folded indent b inLine l m) b' d := by
  induction l using break_induction generalizing b inLine m with
  | nil => exact absurd rfl more
  | double rest ih =>
    have later : rest ≠ [] := by
      rintro rfl
      exact absurd (ends.tail.last) (by decide)
    rw [List.cons_append, List.cons_append, blockLines, mark_newline] at found
    rw [blockLines]
    have next {b : BlockLines} {m : Mark}
        (found : blockLines folded indent b false (rest ++ w.back) (w.mark m) = some (b', d)) :
        BlockLines.Near w _ (blockLines folded indent b false rest m) b' d :=
      (ih ends.tail.tail later (by simp) found).mono (List.suffix_append ['\r', '\n'] rest)
    exact .ite found (fun _ => next) fun _ => next
  | single a rest apart ih =>
    have blank {b : BlockLines} {m : Mark} (blank : isBlank a = true)
        (found : blockLines folded indent b false (rest ++ w.back) (w.mark m) = some (b', d)) :
        BlockLines.Near w (a :: rest) (blockLines folded indent b false rest m) b' d := by
      have later : rest ≠ [] := by
        rintro rfl
        rw [ends.last] at blank
        cases blank
      exact (ih ends.tail later (by simp) found).mono (List.suffix_cons a rest)
    -- A line goes on, into the margin if this was the last character.
    have line {b : BlockLines} {m : Mark} (first : b.first = []) (further : b.further = [])
        (found : blockLines folded indent b true (rest ++ w.back) (w.mark m) = some (b', d)) :
        BlockLines.Near w (a :: rest) (blockLines folded indent b true rest m) b' d := by
      by_cases last : rest = []
      · subst last
        refine ⟨b, ⟨[], m⟩, rfl, near_of_reaches (reaches_blockLines found), List.nil_suffix, ?_⟩
        exact .inr ⟨rfl, first, further, grown_of_blockLines w.blank (.of_eq first further) found⟩
      · exact (ih ends.tail last (fun _ => ⟨first, further⟩) found).mono (List.suffix_cons a rest)
    rw [List.cons_append, blockLines_cons_apart (apart_append apart ends), column_mark, mark_next,
      mark_newline] at found
    rw [blockLines_cons_apart apart]
    dsimp only at found ⊢
    refine .ite found (fun inside found => ?_) fun _ found => ?_
    · obtain ⟨first, further⟩ := begun inside
      exact .ite found (fun breaks => blank (isBlank_of_isBreak breaks))
        fun _ => line first further
    refine .ite found (fun space => blank ?_) fun _ found => ?_
    · have same : a = ' ' := by grind
      rw [same]
      rfl
    refine .ite found (fun _ found => by cases found) fun _ found => ?_
    refine .ite found (fun breaks => blank (isBlank_of_isBreak breaks)) fun _ found => ?_
    refine .ite found (fun _ => line rfl rfl) fun _ found => ?_
    cases found
    exact ⟨b', ⟨a :: rest, m⟩, rfl, .inside (by simp) ends, List.suffix_refl _, .inl rfl⟩

/-! ## Block scalars -/

/-- The indentation that the header of a block scalar fixes; zero if there is none. -/
def fixedIndent (blockIndent : Int) (header : BlockHeader) : Nat :=
  if header.indent = 0 then 0
  else if 0 ≤ blockIndent then blockIndent.toNat + header.indent
  else header.indent

def readBlockLines (style : Style) (blockIndent : Int) (fixed : Nat) (c : Cursor) :
    Option (BlockLines × Cursor) := do
  let (breaks, deepest, c) ← leadingBreaks fixed 0 [] c.rest c.mark
  let indent := if fixed = 0 then max (max deepest (blockIndent + 1).toNat) 1 else fixed
  blockLines (style == .folded) indent { further := breaks } false c.rest c.mark

theorem readBlock_eq (style : Style) (blockIndent : Int) (c : Cursor) :
    readBlock style blockIndent c = (do
      let (header, c) ← readBlockHeader c
      let c ← skipLineEnd c.rest c.mark
      let (b, c) ← readBlockLines style blockIndent (fixedIndent blockIndent header) c
      return (b.finish header.chomping, c)) := by
  simp only [readBlock, readBlockLines, fixedIndent, bind_assoc]
  rfl

/-- Inside of margins the lines of a block may only grow by what is blank. -/
theorem readBlockLines_near {style : Style} {blockIndent : Int} {fixed : Nat} {e : Cursor}
    (near : w.Near c d) (found : readBlockLines style blockIndent fixed d = some (b, e)) :
    BlockLines.Near w c.rest (readBlockLines style blockIndent fixed c) b e := by
  obtain ⟨⟨breaks, deepest, d'⟩, leading, lines⟩ := Option.bind_eq_some_iff.mp found
  cases near with
  | inside more ends =>
    obtain ⟨c', same, rfl, left, within⟩ := leadingBreaks_append ends more leading
    rw [readBlockLines, same]
    exact (blockLines_near (ends.of_suffix within) left (by simp) lines).mono within
  | @past m _ blank before =>
    obtain ⟨all, reaches⟩ := leadingBreaks_of_isBlank (by simp) leading
    have blank' : ∀ a ∈ d'.rest, isBlank a = true :=
      fun a mem => blank a (reaches.suffix.subset mem)
    have grown : ({ further := breaks } : BlockLines).Grown [] := ⟨⟨[], rfl, by simp⟩, by simp, all⟩
    have near := Near.reaches (.past blank before) rfl (reaches.trans (reaches_blockLines lines))
    exact ⟨{}, ⟨[], m⟩, rfl, near, List.suffix_refl _,
      .inr ⟨rfl, rfl, rfl, grown_of_blockLines blank' grown lines⟩⟩

/-- A block scalar inside of margins is that of the text alone, or it ends with a blank character
and only the margin is left. -/
theorem readBlock_near {style : Style} {blockIndent : Int} (ends : EndsVisibly c.rest)
    (found : readBlock style blockIndent (w.cursor c) = some (text, d)) :
    (∃ c', readBlock style blockIndent c = some (text, c') ∧ w.Near c' d ∧ c'.rest <:+ c.rest) ∨
    ((∀ a ∈ d.rest, isBlank a = true) ∧ trailsBlank text = true) := by
  rw [readBlock_eq] at found ⊢
  obtain ⟨⟨header, d₁⟩, read, found⟩ := Option.bind_eq_some_iff.mp found
  obtain ⟨d₂, line, found⟩ := Option.bind_eq_some_iff.mp found
  obtain ⟨⟨b, d₃⟩, lines, found⟩ := Option.bind_eq_some_iff.mp found
  cases found
  obtain ⟨c₁, read', rfl, within₁⟩ := readBlockHeader_follows c header d₁ read
  obtain ⟨c₂, line', near⟩ := skipLineEnd_near (near_cursor (ends.of_suffix within₁)) line
  have within₂ : c₂.rest <:+ c₁.rest := (reaches_skipLineEnd line').suffix
  obtain ⟨b', c₃, lines', near, within₃, grown⟩ := readBlockLines_near near lines
  have found' : (do
      let (header, c) ← readBlockHeader c
      let c ← skipLineEnd c.rest c.mark
      let (b, c) ← readBlockLines style blockIndent (fixedIndent blockIndent header) c
      return (b.finish header.chomping, c)) = some (b'.finish header.chomping, c₃) := by
    simp [read', line', lines']
  have within := within₃.trans (within₂.trans within₁)
  rcases grown with rfl | ⟨past, first, further, grown⟩
  · exact .inl ⟨c₃, found', near, within⟩
  · have finished : b'.finish header.chomping = b'.text.reverse := by
      cases chomping : header.chomping <;> simp [BlockLines.finish, first, further]
    rcases grown.finish header.chomping with same | blank
    · exact .inl ⟨c₃, by rw [found', finished, same], near, within⟩
    · exact .inr ⟨near.blank past, blank⟩

end RoomAudio.Yaml
