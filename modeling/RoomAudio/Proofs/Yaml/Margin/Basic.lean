import RoomAudio.Proofs.Text.Blank
import RoomAudio.Proofs.Yaml.Cursor
import RoomAudio.Yaml.Token.Scan

/-!
# Texts inside of margins

The same text may stand alone, or with blank characters around it. A reader of the text alone and
one of the text inside of its margins see the same characters at places that differ by the lines and
characters in front, until the reader inside of margins comes to the blank characters at the end.

## Main definitions

* `Yaml.EndsVisibly` — a text whose last character is not blank.
* `Yaml.Margin` — what stands around a text.
* `Yaml.Margin.Near` — the places of two readers that belong together.
* `Yaml.Margin.Follows` — a reader inside of margins finds nothing but what the other one finds.
-/

namespace RoomAudio.Yaml

open Text (isBlank)

/-! ## Blank characters -/

section Characters

variable {c d : Char}

theorem isBlank_of_isSpacing (h : isSpacing c = true) : isBlank c = true := by
  simp only [isSpacing, Bool.or_eq_true, beq_iff_eq] at h
  rcases h with rfl | rfl <;> rfl

theorem beq_false_of_isBlank (h : isBlank c = true) (visible : isBlank d = false) :
    (c == d) = false := by
  rw [beq_eq_false_iff_ne]
  rintro rfl
  rw [h] at visible
  cases visible

theorem not_isWord_of_isBlank (h : isBlank c = true) : isWord c = false := by
  cases word : isWord c with
  | false => rfl
  | true =>
    unfold isWord Char.isAlphanum Char.isAlpha Char.isUpper Char.isLower Char.isDigit at word
    simp only [Bool.or_eq_true, Bool.and_eq_true, decide_eq_true_eq, beq_iff_eq,
      UInt32.le_iff_toNat_le, ge_iff_le] at word
    change ((((65 ≤ c.toNat ∧ c.toNat ≤ 90) ∨ (97 ≤ c.toNat ∧ c.toNat ≤ 122)) ∨
      (48 ≤ c.toNat ∧ c.toNat ≤ 57)) ∨ c = '_') ∨ c = '-' at word
    rcases word with (word | rfl) | rfl
    · simp only [isBlank, Bool.or_eq_true, Bool.and_eq_true, decide_eq_true_eq, beq_iff_eq] at h
      omega
    · cases h
    · cases h

end Characters

/-- A character that does not begin a line break of two characters. -/
def Apart (c : Char) (rest : List Char) : Prop := ∀ rest', c = '\r' → rest = '\n' :: rest' → False

/-- A text is read character by character, save that a carriage return and the line feed behind it
are one line break. -/
@[elab_as_elim]
theorem break_induction {motive : List Char → Prop} (nil : motive [])
    (double : ∀ rest, motive rest → motive ('\r' :: '\n' :: rest))
    (single : ∀ c rest, Apart c rest → motive rest → motive (c :: rest)) (l : List Char) :
    motive l := by
  induction length : l.length using Nat.strong_induction_on generalizing l with
  | _ n ih =>
    cases l with
    | nil => exact nil
    | cons c rest =>
      have shorter : rest.length < n := by
        rw [← length, List.length_cons]
        exact Nat.lt_succ_self _
      by_cases apart : Apart c rest
      · exact single c rest apart (ih _ shorter rest rfl)
      · obtain ⟨tail, rfl, rfl⟩ : ∃ tail, c = '\r' ∧ rest = '\n' :: tail := by
          by_contra never
          exact apart fun tail first second => never ⟨tail, first, second⟩
        exact double tail (ih _ (Nat.lt_of_succ_lt shorter) tail rfl)

/-- The last character, if there is one, is not blank. -/
def EndsVisibly (l : List Char) : Prop := ∀ c ∈ l.getLast?, isBlank c = false

namespace EndsVisibly

variable {l l' : List Char} {c : Char}

theorem of_suffix (h : EndsVisibly l) (suffix : l' <:+ l) : EndsVisibly l' := by
  obtain ⟨front, rfl⟩ := suffix
  by_cases empty : l' = []
  · simp [EndsVisibly, empty]
  · rwa [EndsVisibly, List.getLast?_append_of_ne_nil _ empty] at h

theorem tail (h : EndsVisibly (c :: l)) : EndsVisibly l := h.of_suffix (List.suffix_cons c l)

theorem last (h : EndsVisibly [c]) : isBlank c = false := h c rfl

end EndsVisibly

/-! ## Places -/

namespace Mark

/-- A place is not behind another one, columns aside. -/
structure Before (m n : Mark) : Prop where
  line : m.line ≤ n.line
  index : m.index ≤ n.index

variable {m n o : Mark}

theorem Before.refl (m : Mark) : m.Before m := ⟨Nat.le_refl _, Nat.le_refl _⟩

theorem Before.trans (h : m.Before n) (h' : n.Before o) : m.Before o :=
  ⟨h.line.trans h'.line, h.index.trans h'.index⟩

theorem before_advance (m : Mark) (n : Nat) : m.Before (m.advance n) :=
  ⟨Nat.le_refl _, Nat.le_add_right _ _⟩

theorem before_next (m : Mark) : m.Before m.next := m.before_advance 1

theorem before_newline (m : Mark) (n : Nat) : m.Before (m.newline n) :=
  ⟨Nat.le_succ _, Nat.le_add_right _ _⟩

end Mark

structure Cursor.Reaches (c d : Cursor) : Prop where
  suffix : d.rest <:+ c.rest
  before : c.mark.Before d.mark

theorem Cursor.Reaches.refl (c : Cursor) : c.Reaches c := ⟨List.suffix_refl _, .refl _⟩

theorem Cursor.Reaches.trans {c d e : Cursor} (h : c.Reaches d) (h' : d.Reaches e) : c.Reaches e :=
  ⟨h'.suffix.trans h.suffix, h.before.trans h'.before⟩

theorem Cursor.Reaches.cons {a : Char} {rest : List Char} {m : Mark} {d : Cursor}
    (h : Cursor.Reaches ⟨rest, m.next⟩ d) : Cursor.Reaches ⟨a :: rest, m⟩ d :=
  ⟨h.suffix.trans (List.suffix_cons a rest), m.before_next.trans h.before⟩

theorem Cursor.Reaches.cons_newline {a : Char} {rest : List Char} {m : Mark} {d : Cursor}
    (h : Cursor.Reaches ⟨rest, m.newline 1⟩ d) : Cursor.Reaches ⟨a :: rest, m⟩ d :=
  ⟨h.suffix.trans (List.suffix_cons a rest), (m.before_newline 1).trans h.before⟩

theorem Cursor.Reaches.cons_cons_newline {a b : Char} {rest : List Char} {m : Mark} {d : Cursor}
    (h : Cursor.Reaches ⟨rest, m.newline 2⟩ d) : Cursor.Reaches ⟨a :: b :: rest, m⟩ d :=
  ⟨h.suffix.trans ((List.suffix_cons b rest).trans (List.suffix_cons a _)),
    (m.before_newline 2).trans h.before⟩

/-- A document marker as its three characters and what follows them. -/
theorem startsMarker_eq (l : List Char) : startsMarker l =
    ((l.take 3 == ['-', '-', '-'] || l.take 3 == ['.', '.', '.']) && startsGap (l.drop 3)) := by
  unfold startsMarker
  split
  · simp
  · simp
  · rename_i dashes dots
    rcases l with _ | ⟨a, _ | ⟨b, _ | ⟨c, rest⟩⟩⟩
    · rfl
    · simp
    · simp
    · have noDashes : ¬(a = '-' ∧ b = '-' ∧ c = '-') := by
        rintro ⟨rfl, rfl, rfl⟩
        exact dashes rest rfl
      have noDots : ¬(a = '.' ∧ b = '.' ∧ c = '.') := by
        rintro ⟨rfl, rfl, rfl⟩
        exact dots rest rfl
      simp [noDashes, noDots]

theorem length_of_startsMarker {l : List Char} (marker : startsMarker l = true) : 3 ≤ l.length := by
  rw [startsMarker_eq, Bool.and_eq_true, Bool.or_eq_true, beq_iff_eq, beq_iff_eq] at marker
  have three : (l.take 3).length = 3 := by rcases marker.1 with same | same <;> rw [same] <;> rfl
  rw [List.length_take] at three
  omega

theorem not_startsMarker_of_isBlank {l : List Char} {c : Char} (h : c ∈ l.take 3)
    (blank : isBlank c = true) : startsMarker l = false := by
  have other : ∀ d, isBlank d = false → (l.take 3 == [d, d, d]) = false := by
    intro d visible
    rw [beq_eq_false_iff_ne]
    intro same
    have mem : c ∈ [d, d, d] := same ▸ h
    have equal : c = d := by simpa using mem
    rw [equal, visible] at blank
    cases blank
  rw [startsMarker_eq, other '-' rfl, other '.' rfl]
  rfl

/-! ## Margins -/

/-- What stands around a text: lines in front of it, and blank characters behind it. -/
structure Margin where
  /-- The number of characters in front. -/
  index : Nat
  /-- The number of lines in front. -/
  line : Nat
  back : List Char
  blank : ∀ c ∈ back, isBlank c = true

namespace Margin

def mark (w : Margin) (m : Mark) : Mark :=
  { index := w.index + m.index, line := w.line + m.line, column := m.column }

def cursor (w : Margin) (c : Cursor) : Cursor := ⟨c.rest ++ w.back, w.mark c.mark⟩

variable (w : Margin) {c d : Cursor} {l : List Char} {m : Mark}

@[simp] theorem mark_advance (n : Nat) : (w.mark m).advance n = w.mark (m.advance n) := by
  simp [mark, Mark.advance, Nat.add_assoc]

@[simp] theorem mark_next : (w.mark m).next = w.mark m.next := w.mark_advance 1

@[simp] theorem mark_newline (n : Nat) : (w.mark m).newline n = w.mark (m.newline n) := by
  simp [mark, Mark.newline, Nat.add_assoc]

@[simp] theorem column_mark : (w.mark m).column = m.column := rfl

theorem skip_cursor {n : Nat} (h : n ≤ c.rest.length) :
    (w.cursor c).skip n = w.cursor (c.skip n) := by
  simp [Cursor.skip, cursor, List.drop_append_of_le_length h]

theorem skip_of_head? {a : Char} (h : c.rest.head? = some a) :
    (w.cursor c).skip 1 = w.cursor (c.skip 1) := by
  refine w.skip_cursor ?_
  obtain ⟨tail, same⟩ := List.head?_eq_some_iff.mp h
  simp [same]

/-- The places of two readers, of the text alone and inside of margins. They are the same as long as
there is a character left; afterwards the reader inside of margins passes blank characters. -/
inductive Near : Cursor → Cursor → Prop where
  | inside {c : Cursor} (more : c.rest ≠ []) (ends : EndsVisibly c.rest) : Near c (w.cursor c)
  | past {m : Mark} {d : Cursor} (blank : ∀ c ∈ d.rest, isBlank c = true)
      (before : (w.mark m).Before d.mark) : Near ⟨[], m⟩ d

variable {w}

theorem near_cursor (ends : EndsVisibly c.rest) : w.Near c (w.cursor c) := by
  obtain ⟨rest, m⟩ := c
  cases rest with
  | nil => exact .past (by simpa [cursor] using w.blank) (.refl _)
  | cons a rest => exact .inside (by simp) ends

theorem near_of_reaches (h : (w.cursor ⟨[], m⟩).Reaches d) : w.Near ⟨[], m⟩ d :=
  .past (fun c mem => w.blank c (by simpa [cursor] using h.suffix.subset mem)) h.before

theorem Near.reaches {e : Cursor} (near : w.Near c d) (past : c.rest = []) (h : d.Reaches e) :
    w.Near c e := by
  cases near with
  | inside more => exact absurd past more
  | past blank before =>
    exact .past (fun c mem => blank c (h.suffix.subset mem)) (before.trans h.before)

theorem Near.blank (near : w.Near c d) (past : c.rest = []) : ∀ a ∈ d.rest, isBlank a = true := by
  cases near with
  | inside more => exact absurd past more
  | past blank => exact blank

theorem Near.before (near : w.Near c d) : (w.mark c.mark).Before d.mark := by
  cases near with
  | inside => exact .refl _
  | past blank before => exact before

/-! ## Looking ahead -/

/-- Whether a text is over or begins with a gap depends on the margin at its end only. -/
theorem startsGap_append (l : List Char) : startsGap (l ++ w.back) =
    (startsGap l && (!l.isEmpty || startsGap w.back)) := by
  cases l <;> simp [startsGap]

/-- A marker is followed by a gap, and the margin may be one. -/
theorem startsMarker_append (l : List Char) : startsMarker (l ++ w.back) =
    (startsMarker l && (3 < l.length || startsGap w.back)) := by
  by_cases short : l.length < 3
  · have unmarked : startsMarker l = false := by
      have length : (l.take 3).length = l.length := by simp; omega
      rw [startsMarker_eq]
      grind
    rw [unmarked, Bool.false_and]
    cases back : w.back with
    | nil => rwa [List.append_nil]
    | cons c back =>
      obtain ⟨k, more⟩ : ∃ k, 3 - l.length = k + 1 := ⟨2 - l.length, by omega⟩
      refine not_startsMarker_of_isBlank (c := c) ?_ (w.blank c (by simp [back]))
      rw [List.take_append, more, List.take_succ_cons]
      simp
  · have empty : (l.drop 3).isEmpty = decide (l.length ≤ 3) := by
      rw [Bool.eq_iff_iff, List.isEmpty_iff, List.drop_eq_nil_iff, decide_eq_true_iff]
    have more : decide (3 < l.length) = !decide (l.length ≤ 3) := by
      rw [← decide_not]
      exact decide_eq_decide.mpr Nat.not_le.symm
    rw [startsMarker_eq, startsMarker_eq, List.take_append_of_le_length (by omega),
      List.drop_append_of_le_length (by omega), startsGap_append, ← Bool.and_assoc, empty, more]

theorem startsMarker_of_append (marker : startsMarker (l ++ w.back) = true) :
    startsMarker l = true := by
  rw [startsMarker_append, Bool.and_eq_true] at marker
  exact marker.1

theorem startsGap_of_append (gap : startsGap (l ++ w.back) = true) : startsGap l = true := by
  rw [startsGap_append, Bool.and_eq_true] at gap
  exact gap.1

/-- A marker in front of a margin that is none inside of it is the whole text, and the margin does
not begin with a gap. -/
theorem of_startsMarker (marker : startsMarker l = true)
    (other : startsMarker (l ++ w.back) = false) :
    (∀ a ∈ l, a = '-' ∨ a = '.') ∧ startsGap w.back = false := by
  rw [startsMarker_append, marker, Bool.true_and, Bool.or_eq_false_iff, decide_eq_false_iff_not]
    at other
  rw [startsMarker_eq, Bool.and_eq_true, Bool.or_eq_true, beq_iff_eq, beq_iff_eq,
    List.take_of_length_le (by omega)] at marker
  refine ⟨fun a mem => ?_, other.2⟩
  rcases marker.1 with rfl | rfl <;> simp at mem <;> simp [mem]

/-- Which visible character a text begins with does not depend on the margin. -/
theorem head?_append_iff (l : List Char) {a : Char} (visible : isBlank a = false) :
    (l ++ w.back).head? = some a ↔ l.head? = some a := by
  cases l with
  | cons b l => rfl
  | nil =>
    refine iff_of_false (fun first => ?_) (by simp)
    rw [w.blank a (List.mem_of_mem_head? first)] at visible
    cases visible

theorem takeWhile_append {p : Char → Bool} (visible : ∀ a, isBlank a = true → p a = false)
    (l : List Char) : (l ++ w.back).takeWhile p = l.takeWhile p := by
  induction l with
  | nil =>
    cases back : w.back with
    | nil => rfl
    | cons a back => simp [visible a (w.blank a (by simp [back]))]
  | cons a l ih => simp [List.takeWhile_cons, ih]

theorem apart_append {a : Char} (apart : Apart a l) (ends : EndsVisibly (a :: l)) :
    Apart a (l ++ w.back) := by
  rintro rest rfl two
  cases l with
  | nil => exact absurd ends.last (by decide)
  | cons b l =>
    obtain ⟨rfl, -⟩ := List.cons.inj two
    exact apart l rfl rfl

/-! ## Readers -/

/-- A reader inside of margins finds nothing but what the reader of the text alone finds, and they
are at the same place afterwards. -/
def Follows {α : Type} (w : Margin) (l : List Char) (x y : Option (α × Cursor)) : Prop :=
  ∀ a d, y = some (a, d) → ∃ c, x = some (a, c) ∧ d = w.cursor c ∧ c.rest <:+ l

namespace Follows

variable {α β : Type} {x y : Option (α × Cursor)}

theorem found {a : α} (suffix : c.rest <:+ l) :
    w.Follows l (some (a, c)) (some (a, w.cursor c)) := by
  rintro b d same
  cases same
  exact ⟨c, rfl, rfl, suffix⟩

theorem nothing : w.Follows l x none := by
  rintro a d ⟨⟩

/-- Two readers one after the other. -/
theorem bind {f g : α × Cursor → Option (β × Cursor)} (h : w.Follows l x y)
    (next : ∀ a c, c.rest <:+ l → w.Follows l (f (a, c)) (g (a, w.cursor c))) :
    w.Follows l (x >>= f) (y >>= g) := by
  rintro b e found
  obtain ⟨⟨a, d⟩, first, then_⟩ := Option.bind_eq_some_iff.mp found
  obtain ⟨c, same, rfl, suffix⟩ := h a d first
  rw [same]
  exact next a c suffix b e then_

/-- What is found without reading may be used. -/
theorem bind_left {o : Option β} {f g : β → Option (α × Cursor)}
    (next : ∀ b, w.Follows l (f b) (g b)) : w.Follows l (o >>= f) (o >>= g) := by
  cases o with
  | none => exact .nothing
  | some b => exact next b

theorem mono {l' : List Char} (h : w.Follows l x y) (suffix : l <:+ l') : w.Follows l' x y := by
  intro a d found
  obtain ⟨c, same, place, within⟩ := h a d found
  exact ⟨c, same, place, within.trans suffix⟩

theorem ite {p : Prop} [Decidable p] {x' y' : Option (α × Cursor)} (yes : p → w.Follows l x y)
    (no : ¬p → w.Follows l x' y') : w.Follows l (if p then x else x') (if p then y else y') := by
  split
  · exact yes ‹_›
  · exact no ‹_›

end Follows

end Margin

/-! ## Gaps -/

namespace Scanner

variable {flow allowed comment : Bool} {l : List Char} {m : Mark}

theorem gapFrom_cons {c : Char} {rest : List Char} (apart : Apart c rest) :
    gapFrom flow allowed comment (c :: rest) m =
      if isBreak c then gapFrom flow (!flow || allowed) false rest (m.newline 1)
      else if comment then gapFrom flow allowed true rest m.next
      else if m.column == 0 && c == byteOrderMark then gapFrom flow allowed false rest m.next
      else if c == ' ' || (c == '\t' && (flow || !allowed)) then
        gapFrom flow allowed false rest m.next
      else if c == '#' then gapFrom flow allowed true rest m.next
      else (⟨c :: rest, m⟩, allowed) := by
  rw [gapFrom.eq_3 _ _ _ _ _ _ apart]

/-- Passing a gap leads further on in the same text. -/
theorem reaches_gapFrom (flow allowed comment : Bool) (l : List Char) (m : Mark) :
    Cursor.Reaches ⟨l, m⟩ (gapFrom flow allowed comment l m).1 := by
  fun_induction gapFrom flow allowed comment l m with
  | case1 => exact .refl _
  | case2 allowed comment m rest ih => exact ih.cons_cons_newline
  | case3 allowed comment c rest m apart breaks ih => exact ih.cons_newline
  | case4 allowed c rest m apart unbroken ih => exact ih.cons
  | case5 allowed comment c rest m apart unbroken outside mark ih => exact ih.cons
  | case6 allowed comment c rest m apart unbroken outside noMark gap ih => exact ih.cons
  | case7 allowed comment c rest m apart unbroken outside noMark noGap hash ih => exact ih.cons
  | case8 => exact .refl _

/-- Passing gaps leads to places that belong together. -/
theorem gapFrom_near {w : Margin} (flow allowed comment : Bool) (ends : EndsVisibly l) (m : Mark) :
    w.Near (gapFrom flow allowed comment l m).1
      (gapFrom flow allowed comment (l ++ w.back) (w.mark m)).1 ∧
    ((gapFrom flow allowed comment l m).1.rest ≠ [] →
      (gapFrom flow allowed comment (l ++ w.back) (w.mark m)).2 =
        (gapFrom flow allowed comment l m).2) := by
  fun_induction gapFrom flow allowed comment l m with
  | case1 => exact ⟨Margin.near_of_reaches (reaches_gapFrom ..), fun more => absurd rfl more⟩
  | case2 allowed comment m rest ih =>
    rw [List.cons_append, List.cons_append, gapFrom, Margin.mark_newline]
    exact ih ends.tail.tail
  | case3 allowed comment c rest m apart breaks ih =>
    rw [List.cons_append, gapFrom_cons (Margin.apart_append apart ends), if_pos breaks,
      Margin.mark_newline]
    exact ih ends.tail
  | case4 allowed c rest m apart unbroken ih =>
    rw [List.cons_append, gapFrom_cons (Margin.apart_append apart ends), if_neg unbroken,
      if_pos rfl, Margin.mark_next]
    exact ih ends.tail
  | case5 allowed comment c rest m apart unbroken outside mark ih =>
    rw [List.cons_append, gapFrom_cons (Margin.apart_append apart ends), if_neg unbroken,
      if_neg outside, Margin.column_mark, if_pos mark, Margin.mark_next]
    exact ih ends.tail
  | case6 allowed comment c rest m apart unbroken outside noMark gap ih =>
    rw [List.cons_append, gapFrom_cons (Margin.apart_append apart ends), if_neg unbroken,
      if_neg outside, Margin.column_mark, if_neg noMark, if_pos gap, Margin.mark_next]
    exact ih ends.tail
  | case7 allowed comment c rest m apart unbroken outside noMark noGap hash ih =>
    rw [List.cons_append, gapFrom_cons (Margin.apart_append apart ends), if_neg unbroken,
      if_neg outside, Margin.column_mark, if_neg noMark, if_neg noGap, if_pos hash,
      Margin.mark_next]
    exact ih ends.tail
  | case8 allowed comment c rest m apart unbroken outside noMark noGap hash =>
    rw [List.cons_append, gapFrom_cons (Margin.apart_append apart ends), if_neg unbroken,
      if_neg outside, Margin.column_mark, if_neg noMark, if_neg noGap, if_neg hash]
    exact ⟨.inside (by simp) ends, fun _ => rfl⟩

end Scanner

end RoomAudio.Yaml
