import RoomAudio.Proofs.Yaml.Margin.Basic
import RoomAudio.Proofs.Yaml.Plain

/-!
# Plain scalars inside of margins

A plain scalar that goes on to the end of the text may go on into the margin. Then it either passes
the gaps there, which are no part of it, or it takes a blank character that is no gap, and ends with
such a character.

## Main definitions

* `Yaml.trailsBlank` — a text whose last character is blank.
* `Yaml.plainFrom_near` — a plain scalar inside of margins is that of the text alone, or it ends
  with a blank character of the margin.
-/

namespace RoomAudio.Yaml

open Margin
open Text (isBlank)

/-- Whether the last character of a text is blank. -/
def trailsBlank (text : List Char) : Bool := text.getLast?.any isBlank

theorem trailsBlank_reverse_cons {c : Char} {text : List Char} (blank : isBlank c = true) :
    trailsBlank (c :: text).reverse = true := by
  simp [trailsBlank, blank]

variable {w : Margin} {flow fresh : Bool} {indent : Int} {text l rest : List Char} {gap : Folding}
  {m : Mark} {c : Char} {p q : PlainScalar}

/-- A tab that stands where a line is to be indented. -/
def misindents (indent : Int) (gap : Folding) (c : Char) (m : Mark) : Bool :=
  gap.broken && (m.column : Int) < indent && c == '\t'

/-- What begins after a gap and is no part of a scalar: a line that is not indented, a marker or a
comment. -/
def interrupts (flow : Bool) (indent : Int) (gap : Folding) (fresh : Bool) (l : List Char)
    (m : Mark) : Bool :=
  fresh && ((gap.broken && !flow && (m.column : Int) < indent) ||
    (m.column == 0 && startsMarker l) || l.head? == some '#')

theorem misindents_mark : misindents indent gap c (w.mark m) = misindents indent gap c m := rfl

theorem interrupts_of_append
    (h : interrupts flow indent gap fresh (l ++ w.back) (w.mark m) = true) :
    interrupts flow indent gap fresh l m = true := by
  have hash : ((l ++ w.back).head? == some '#') = (l.head? == some '#') := by
    rw [Bool.eq_iff_iff, beq_iff_eq, beq_iff_eq]
    exact head?_append_iff l rfl
  have marker := startsMarker_of_append (w := w) (l := l)
  rw [interrupts, hash] at h
  rw [interrupts]
  grind [column_mark]

/-- Only a marker in front of the margin can interrupt a scalar and be a part of it otherwise. -/
theorem startsMarker_of_interrupts (h : interrupts flow indent gap fresh l m = true)
    (other : interrupts flow indent gap fresh (l ++ w.back) (w.mark m) = false) :
    startsMarker l = true ∧ startsMarker (l ++ w.back) = false := by
  have hash : ((l ++ w.back).head? == some '#') = (l.head? == some '#') := by
    rw [Bool.eq_iff_iff, beq_iff_eq, beq_iff_eq]
    exact head?_append_iff l rfl
  rw [interrupts] at h
  rw [interrupts, hash] at other
  grind [column_mark]

theorem plainFrom_cons_apart (apart : Apart c rest) :
    plainFrom flow indent text gap fresh (c :: rest) m =
      if isBreak c then plainFrom flow indent text (gap.lineBreak c) true rest (m.newline 1)
      else if isSpacing c then
        if misindents indent gap c m then none
        else plainFrom flow indent text (gap.space c) true rest m.next
      else if interrupts flow indent gap fresh (c :: rest) m then
        some ⟨text.reverse, ⟨c :: rest, m⟩, gap.broken⟩
      else if flow && c == ':' && isMisplacedAfterColon rest then none
      else if (c == ':' && startsGap rest) || (flow && isFlowIndicator c) then
        some ⟨text.reverse, ⟨c :: rest, m⟩, gap.broken⟩
      else plainFrom flow indent (c :: gap.join text) {} false rest m.next := by
  rw [plainFrom.eq_3 _ _ _ _ _ _ _ _ apart]
  rfl

theorem reaches_plainFrom (found : plainFrom flow indent text gap fresh l m = some p) :
    Cursor.Reaches ⟨l, m⟩ p.after := by
  fun_induction plainFrom flow indent text gap fresh l m with
  | case1 => cases found; exact .refl _
  | case2 text gap fresh rest m ih => exact (ih found).cons_cons_newline
  | case3 text gap fresh c rest m apart breaks ih => exact (ih found).cons_newline
  | case4 => cases found
  | case5 text gap fresh c rest m apart unbroken spacing tab ih => exact (ih found).cons
  | case6 => cases found; exact .refl _
  | case7 => cases found
  | case8 => cases found; exact .refl _
  | case9 text gap fresh c rest m apart unbroken visible marker colon stop ih =>
    exact (ih found).cons

/-- What is read of blank characters alone. -/
theorem plainFrom_of_blank (blank : ∀ c ∈ l, isBlank c = true)
    (found : plainFrom flow indent text gap fresh l m = some p) :
    p.text = text.reverse ∨ trailsBlank p.text = true := by
  fun_induction plainFrom flow indent text gap fresh l m with
  | case1 => cases found; exact .inl rfl
  | case2 text gap fresh rest m ih => exact ih (fun c mem => blank c (by simp [mem])) found
  | case3 text gap fresh c rest m apart breaks ih =>
    exact ih (fun c mem => blank c (by simp [mem])) found
  | case4 => cases found
  | case5 text gap fresh c rest m apart unbroken spacing tab ih =>
    exact ih (fun c mem => blank c (by simp [mem])) found
  | case6 => cases found; exact .inl rfl
  | case7 => cases found
  | case8 => cases found; exact .inl rfl
  | case9 text gap fresh c rest m apart unbroken visible marker colon stop ih =>
    refine .inr ?_
    rcases ih (fun c mem => blank c (by simp [mem])) found with same | ends
    · rw [same]
      exact trailsBlank_reverse_cons (blank c (by simp))
    · exact ends

/-- Where the margin begins with a character that is no gap, a scalar in front of it goes on. -/
theorem trailsBlank_of_plainFrom_back (noGap : startsGap w.back = false)
    (found : plainFrom flow indent text gap false w.back m = some p) :
    trailsBlank p.text = true := by
  cases back : w.back with
  | nil => rw [back] at noGap; cases noGap
  | cons c rest =>
    have blank : ∀ d ∈ c :: rest, isBlank d = true := back ▸ w.blank
    have visible : isGap c = false := by rwa [back, startsGap] at noGap
    have noBreak : isBreak c = false := not_isBreak_of_not_isGap visible
    have apart : Apart c rest := by
      rintro - rfl -
      cases noBreak
    have noColon : (c == ':') = false := beq_false_of_isBlank (blank c (by simp)) rfl
    have noFlow : isFlowIndicator c = false := by
      have other (d : Char) (h : isBlank d = false) : (c == d) = false :=
        beq_false_of_isBlank (blank c (by simp)) h
      simp only [isFlowIndicator, other ',' rfl, other '[' rfl, other ']' rfl, other '\x7b' rfl,
        other '\x7d' rfl, Bool.or_false]
    rw [back, plainFrom_cons_apart apart, noBreak, not_isSpacing_of_not_isGap visible, noColon,
      noFlow] at found
    simp only [Bool.false_eq_true, if_false, Bool.false_and, Bool.and_false, Bool.or_false] at found
    rcases plainFrom_of_blank (fun d mem => blank d (by simp [mem])) found with same | ends
    · rw [same]
      exact trailsBlank_reverse_cons (blank c (by simp))
    · exact ends

/-- How a plain scalar inside of margins ends: as that of the text alone, or in the margin. -/
def PlainScalar.Near (w : Margin) (l : List Char) (x : Option PlainScalar) (p : PlainScalar) :
    Prop :=
  (∃ q, x = some q ∧ q.text = p.text ∧ w.Near q.after p.after ∧ q.after.rest <:+ l ∧
    (q.after.rest ≠ [] → q.broken = p.broken)) ∨
  ((∀ c ∈ p.after.rest, isBlank c = true) ∧ trailsBlank p.text = true)

/-- Dashes and dots in the middle of a scalar belong to it. -/
theorem plainFrom_dashes (all : ∀ a ∈ l, a = '-' ∨ a = '.') (noGap : startsGap w.back = false)
    (found : plainFrom flow indent text gap false (l ++ w.back) m = some p) :
    (∀ c ∈ p.after.rest, isBlank c = true) ∧ trailsBlank p.text = true := by
  induction l generalizing text gap m with
  | nil =>
    have suffix : p.after.rest <:+ w.back := (reaches_plainFrom found).suffix
    exact ⟨fun c mem => w.blank c (suffix.subset mem), trailsBlank_of_plainFrom_back noGap found⟩
  | cons a l ih =>
    have apart : Apart a (l ++ w.back) := by
      rintro - rfl -
      exact absurd (all '\r' (by simp)) (by decide)
    rw [List.cons_append, plainFrom_cons_apart apart] at found
    rcases all a (by simp) with rfl | rfl
    · simp [isBreak, isSpacing, isFlowIndicator] at found
      exact ih (fun a mem => all a (by simp [mem])) found
    · simp [isBreak, isSpacing, isFlowIndicator] at found
      exact ih (fun a mem => all a (by simp [mem])) found

theorem isMisplacedAfterColon_append (l : List Char) :
    isMisplacedAfterColon (l ++ w.back) = isMisplacedAfterColon l := by
  cases l with
  | cons a l => rfl
  | nil =>
    cases back : w.back with
    | nil => rfl
    | cons a l =>
      have other (d : Char) (h : isBlank d = false) : (a == d) = false :=
        beq_false_of_isBlank (w.blank a (by simp [back])) h
      simp [isMisplacedAfterColon, isFlowIndicator, other ',' rfl, other '[' rfl, other ']' rfl,
        other '\x7b' rfl, other '\x7d' rfl, other '?' rfl]

theorem PlainScalar.Near.mono {l' : List Char} {x : Option PlainScalar}
    (h : PlainScalar.Near w l x p) (suffix : l <:+ l') : PlainScalar.Near w l' x p := by
  rcases h with ⟨q, same, text, near, within, broken⟩ | lost
  · exact .inl ⟨q, same, text, near, within.trans suffix, broken⟩
  · exact .inr lost

theorem PlainScalar.Near.stop {s : List Char} {broken : Bool} (ends : EndsVisibly (c :: rest))
    (found : some ⟨s, w.cursor ⟨c :: rest, m⟩, broken⟩ = some p) :
    PlainScalar.Near w (c :: rest) (some ⟨s, ⟨c :: rest, m⟩, broken⟩) p := by
  cases found
  exact .inl ⟨_, rfl, rfl, .inside (by simp) ends, List.suffix_refl _, fun _ => rfl⟩

theorem PlainScalar.Near.ite {b : Prop} [Decidable b] {x y x' y' : Option PlainScalar}
    (found : (if b then x' else y') = some p)
    (yes : b → x' = some p → PlainScalar.Near w l x p)
    (no : ¬b → y' = some p → PlainScalar.Near w l y p) :
    PlainScalar.Near w l (if b then x else y) p := by
  split
  · rename_i holds
    exact yes holds ((if_pos holds).symm.trans found)
  · rename_i fails
    exact no fails ((if_neg fails).symm.trans found)

/-- A marker that the margin undoes is the last of the text, and none of it ends a scalar. -/
theorem dashes_of_interrupts (marked : interrupts flow indent gap fresh (c :: rest) m = true)
    (inside : interrupts flow indent gap fresh (c :: rest ++ w.back) (w.mark m) = false) :
    (∀ a ∈ rest, a = '-' ∨ a = '.') ∧ startsGap w.back = false ∧ (c == ':') = false ∧
      isFlowIndicator c = false := by
  obtain ⟨marker, other⟩ := startsMarker_of_interrupts marked inside
  obtain ⟨all, noGap⟩ := of_startsMarker marker other
  refine ⟨fun a mem => all a (by simp [mem]), noGap, ?_, ?_⟩
  · rcases all c (by simp) with rfl | rfl <;> rfl
  · rcases all c (by simp) with rfl | rfl <;> rfl

/-- A colon that ends a scalar of the text alone and none inside of margins is the last of it. -/
theorem last_of_colon
    (stops : ((c == ':' && startsGap rest) || (flow && isFlowIndicator c)) = true)
    (other : ((c == ':' && startsGap (rest ++ w.back)) || (flow && isFlowIndicator c)) = false) :
    rest = [] ∧ startsGap w.back = false := by
  rw [startsGap_append] at other
  cases rest with
  | nil => exact ⟨rfl, by grind [startsGap]⟩
  | cons a rest =>
    rw [List.isEmpty_cons, Bool.not_false, Bool.true_or, Bool.and_true, stops] at other
    cases other

/-- A scalar that the text ends in: it ends there, or it takes characters of the margin. -/
theorem plainFrom_back_near
    (found : plainFrom flow indent text gap fresh w.back (w.mark m) = some p) :
    PlainScalar.Near w l (plainFrom flow indent text gap fresh [] m) p := by
  have reaches := reaches_plainFrom found
  rcases plainFrom_of_blank w.blank found with same | lost
  · exact .inl ⟨_, rfl, same.symm, near_of_reaches reaches, List.nil_suffix,
      fun more => absurd rfl more⟩
  · exact .inr ⟨fun a mem => w.blank a (reaches.suffix.subset mem), lost⟩

/-- A plain scalar inside of margins is that of the text alone, or it ends in the margin. -/
theorem plainFrom_near (ends : EndsVisibly l) (more : l ≠ [])
    (found : plainFrom flow indent text gap fresh (l ++ w.back) (w.mark m) = some p) :
    PlainScalar.Near w l (plainFrom flow indent text gap fresh l m) p := by
  induction l using break_induction generalizing text gap fresh m with
  | nil => exact absurd rfl more
  | double rest ih =>
    have later : rest ≠ [] := by
      rintro rfl
      exact absurd (ends.tail.last) (by decide)
    rw [List.cons_append, List.cons_append, plainFrom, mark_newline] at found
    rw [plainFrom]
    exact (ih ends.tail.tail later found).mono (List.suffix_append ['\r', '\n'] rest)
  | single c rest apart ih =>
    have later (blank : isBlank c = true) : rest ≠ [] := by
      rintro rfl
      rw [ends.last] at blank
      cases blank
    have next {text gap fresh m} (more : rest ≠ [])
        (found : plainFrom flow indent text gap fresh (rest ++ w.back) (w.mark m) = some p) :
        PlainScalar.Near w (c :: rest) (plainFrom flow indent text gap fresh rest m) p :=
      (ih ends.tail more found).mono (List.suffix_cons c rest)
    rw [List.cons_append, plainFrom_cons_apart (apart_append apart ends)] at found
    simp only [mark_newline, mark_next, misindents_mark, isMisplacedAfterColon_append] at found
    rw [plainFrom_cons_apart apart]
    -- Each test is made on both sides; only looking ahead into the margin can differ.
    refine .ite found (fun breaks => next (later (isBlank_of_isBreak breaks))) fun _ found => ?_
    refine .ite found (fun spacing found => ?_) fun _ found => ?_
    · exact .ite found (fun _ none => by cases none)
        fun _ => next (later (isBlank_of_isSpacing spacing))
    by_cases inside : interrupts flow indent gap fresh (c :: rest ++ w.back) (w.mark m) = true
    · rw [if_pos (interrupts_of_append inside)]
      exact .stop ends ((if_pos inside).symm.trans found)
    replace found := (if_neg inside).symm.trans found
    split
    · rename_i marked
      obtain ⟨all, noGap, noColon, noFlow⟩ :=
        dashes_of_interrupts marked (Bool.eq_false_iff.mpr inside)
      rw [noColon, noFlow] at found
      simp only [Bool.and_false, Bool.false_and, Bool.or_false, Bool.false_eq_true, if_false]
        at found
      exact .inr (plainFrom_dashes all noGap found)
    refine .ite found (fun _ none => by cases none) fun _ found => ?_
    by_cases stops :
        ((c == ':' && startsGap (rest ++ w.back)) || (flow && isFlowIndicator c)) = true
    · have same : ((c == ':' && startsGap rest) || (flow && isFlowIndicator c)) = true := by
        rw [Bool.or_eq_true, Bool.and_eq_true] at stops ⊢
        exact stops.imp_left fun colon => ⟨colon.1, startsGap_of_append colon.2⟩
      rw [if_pos same]
      exact .stop ends ((if_pos stops).symm.trans found)
    replace found := (if_neg stops).symm.trans found
    split
    · rename_i colon
      obtain ⟨rfl, noGap⟩ := last_of_colon colon (Bool.eq_false_iff.mpr stops)
      exact .inr (plainFrom_dashes (l := []) (by simp) noGap found)
    · by_cases more : rest = []
      · subst more
        exact plainFrom_back_near found
      · exact next more found

/-- What a plain scalar begins with does not end it. -/
theorem not_ends_of_startsPlain (starts : Scanner.startsPlain flow c rest = true) :
    isGap c = false ∧ (c == '#') = false ∧ (flow && isFlowIndicator c) = false ∧
      (flow && c == ':') = false ∧ (c == ':' && startsGap rest) = false := by
  simp only [Scanner.startsPlain, Bool.or_eq_true, Bool.and_eq_true, Bool.not_eq_true',
    beq_iff_eq] at starts
  rcases starts with (⟨other, gap⟩ | ⟨rfl, -⟩) | ⟨⟨rfl, rfl | rfl⟩, gap⟩
  · simp only [Scanner.isIndicator, List.contains_cons, Bool.or_eq_false_iff] at other
    grind [isFlowIndicator]
  · simp [isGap, isSpacing, isBreak, isFlowIndicator]
  · simp [isGap, isSpacing, isBreak]
  · simp [isGap, isSpacing, isBreak, gap]

/-- A plain scalar takes its first character. -/
theorem readPlain_of_startsPlain (starts : Scanner.startsPlain flow c rest = true)
    (unmarked : (m.column == 0 && startsMarker (c :: rest)) = false) :
    readPlain flow indent ⟨c :: rest, m⟩ = plainFrom flow indent [c] {} false rest m.next := by
  obtain ⟨noGap, noHash, noFlow, noColon, noValue⟩ := not_ends_of_startsPlain starts
  have apart : Apart c rest := by
    rintro - rfl -
    cases noGap
  have inside : interrupts flow indent {} true (c :: rest) m = false := by
    simp only [interrupts, unmarked, List.head?_cons, Option.some_beq_some, noHash]
    simp
  rw [isGap, Bool.or_eq_false_iff] at noGap
  rw [readPlain, plainFrom_cons_apart apart, noGap.1, noGap.2, inside, noColon, noFlow, noValue]
  rfl

/-- A plain scalar has a character. -/
theorem suffix_of_readPlain (starts : Scanner.startsPlain flow c rest = true)
    (unmarked : (m.column == 0 && startsMarker (c :: rest)) = false)
    (found : readPlain flow indent ⟨c :: rest, m⟩ = some q) : q.after.rest <:+ rest := by
  rw [readPlain_of_startsPlain starts unmarked] at found
  exact (reaches_plainFrom found).suffix

/-- A plain scalar of blank characters. -/
theorem trailsBlank_of_readPlain (starts : Scanner.startsPlain flow c rest = true)
    (unmarked : (m.column == 0 && startsMarker (c :: rest)) = false)
    (blank : ∀ a ∈ c :: rest, isBlank a = true)
    (found : readPlain flow indent ⟨c :: rest, m⟩ = some q) : trailsBlank q.text = true := by
  rw [readPlain_of_startsPlain starts unmarked] at found
  rcases plainFrom_of_blank (fun a mem => blank a (by simp [mem])) found with same | ends
  · rw [same]
    exact trailsBlank_reverse_cons (blank c (by simp))
  · exact ends

/-- A plain scalar that goes on into the margin, although nothing but dashes and dots stands in
front of it. -/
theorem readPlain_dashes (starts : Scanner.startsPlain flow c (l ++ w.back) = true)
    (unmarked : (m.column == 0 && startsMarker (c :: (l ++ w.back))) = false)
    (all : ∀ a ∈ l, a = '-' ∨ a = '.') (noGap : startsGap w.back = false)
    (found : readPlain flow indent ⟨c :: (l ++ w.back), m⟩ = some p) :
    (∀ c ∈ p.after.rest, isBlank c = true) ∧ trailsBlank p.text = true := by
  rw [readPlain_of_startsPlain starts unmarked] at found
  exact plainFrom_dashes all noGap found

end RoomAudio.Yaml
