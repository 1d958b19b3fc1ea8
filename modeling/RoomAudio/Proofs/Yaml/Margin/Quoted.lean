import RoomAudio.Proofs.Yaml.Margin.Basic
import RoomAudio.Proofs.Yaml.Quoted

/-!
# Quoted scalars inside of margins

A quoted scalar ends with its quote, which is not blank. So it lies in front of the margin at the
end, and its reader never gets there.

## Main definitions

* `Yaml.readSingleQuoted_follows`, `Yaml.readDoubleQuoted_follows` — reading does not depend on the
  margins.
-/

namespace RoomAudio.Yaml

open Margin
open Text (isBlank)

variable {w : Margin} {text l rest : List Char} {gap : Folding} {m : Mark} {c : Char}
  {d : Cursor} {s : List Char}

/-! ## Markers in front of a margin -/

/-- What a reader does at a marker. A marker that is none inside of margins is followed by nothing
but the margin, where `quote` does not stand. -/
theorem Margin.Follows.marker {x y : Option (List Char × Cursor)} (quote : Char) (column : Nat)
    (quoted : y ≠ none → quote ∈ l ++ w.back) (visible : isBlank quote = false)
    (noDash : quote ≠ '-') (noDot : quote ≠ '.')
    (h : (column == 0 && startsMarker l) = false → w.Follows l x y) :
    w.Follows l (if column == 0 && startsMarker l then none else x)
      (if column == 0 && startsMarker (l ++ w.back) then none else y) := by
  cases marker : column == 0 && startsMarker l with
  | false =>
    have inside : ¬(column == 0 && startsMarker (l ++ w.back)) = true := by
      rw [Bool.and_eq_true]
      rintro ⟨start, marked⟩
      rw [start, startsMarker_of_append marked] at marker
      cases marker
    rw [if_neg (by simp), if_neg inside]
    exact h marker
  | true =>
    rw [if_pos rfl]
    intro s d found
    split at found
    · cases found
    · rename_i other
      rw [Bool.and_eq_true] at marker
      rw [Bool.and_eq_true, not_and, Bool.not_eq_true] at other
      have mem : quote ∈ l := by
        refine (List.mem_append.mp (quoted (by simp [found]))).resolve_right fun inside => ?_
        rw [w.blank quote inside] at visible
        cases visible
      rcases (of_startsMarker marker.2 (other marker.1)).1 quote mem with same | same
      · exact absurd same noDash
      · exact absurd same noDot

/-! ## Single quotes -/

theorem singleQuotedFrom_cons_apart (apart : Apart c rest)
    (single : ∀ rest', c = '\'' → rest = '\'' :: rest' → False) :
    singleQuotedFrom text gap (c :: rest) m =
      if isBreak c then singleQuotedFrom text (gap.lineBreak c) rest (m.newline 1)
      else if isSpacing c then singleQuotedFrom text (gap.space c) rest m.next
      else if c == '\'' then some ((gap.join text).reverse, ⟨rest, m.next⟩)
      else if m.column == 0 && startsMarker (c :: rest) then none
      else singleQuotedFrom (c :: gap.join text) {} rest m.next := by
  rw [singleQuotedFrom.eq_4 _ _ _ _ _ apart single]

/-- A scalar in quotes ends with one, so the margin is not part of it. -/
theorem mem_of_singleQuotedFrom (h : singleQuotedFrom text gap l m ≠ none) : '\'' ∈ l := by
  fun_induction singleQuotedFrom text gap l m with
  | case1 => exact absurd rfl h
  | case2 text gap rest m ih => simp [ih h]
  | case3 => simp
  | case4 text gap c rest m apart single breaks ih => simp [ih h]
  | case5 text gap c rest m apart single unbroken spacing ih => simp [ih h]
  | case6 text gap c rest m apart single unbroken visible quote => simp [beq_iff_eq.mp quote]
  | case7 => exact absurd rfl h
  | case8 text gap c rest m apart single unbroken visible other marker ih => simp [ih h]

theorem single_append (single : ∀ rest', c = '\'' → rest = '\'' :: rest' → False) :
    ∀ rest', c = '\'' → rest ++ w.back = '\'' :: rest' → False := by
  intro rest' quote two
  have head : (rest ++ w.back).head? = some '\'' := by rw [two]; rfl
  obtain ⟨tail, same⟩ := List.head?_eq_some_iff.mp ((head?_append_iff rest rfl).mp head)
  exact single tail quote same

/-- Inside of margins a scalar in quotes is the same. -/
theorem singleQuotedFrom_follows (text : List Char) (gap : Folding) (ends : EndsVisibly l)
    (m : Mark) : w.Follows l (singleQuotedFrom text gap l m)
      (singleQuotedFrom text gap (l ++ w.back) (w.mark m)) := by
  fun_induction singleQuotedFrom text gap l m with
  | case1 =>
    intro s d found
    have mem := mem_of_singleQuotedFrom (found ▸ Option.some_ne_none _)
    exact absurd (w.blank _ mem) (by decide)
  | case2 text gap rest m ih =>
    rw [List.cons_append, List.cons_append, singleQuotedFrom, mark_newline]
    exact (ih ends.tail.tail).mono (List.suffix_append ['\r', '\n'] rest)
  | case3 text gap rest m ih =>
    rw [List.cons_append, List.cons_append, singleQuotedFrom, mark_advance]
    exact (ih ends.tail.tail).mono (List.suffix_append ['\'', '\''] rest)
  | case4 text gap c rest m apart single breaks ih =>
    rw [List.cons_append, singleQuotedFrom_cons_apart (apart_append apart ends)
      (single_append single), if_pos breaks, mark_newline]
    exact (ih ends.tail).mono (List.suffix_cons c rest)
  | case5 text gap c rest m apart single unbroken spacing ih =>
    rw [List.cons_append, singleQuotedFrom_cons_apart (apart_append apart ends)
      (single_append single), if_neg unbroken, if_pos spacing, mark_next]
    exact (ih ends.tail).mono (List.suffix_cons c rest)
  | case6 text gap c rest m apart single unbroken visible quote =>
    rw [List.cons_append, singleQuotedFrom_cons_apart (apart_append apart ends)
      (single_append single), if_neg unbroken, if_neg visible, if_pos quote, mark_next]
    exact .found (c := ⟨rest, m.next⟩) (List.suffix_cons c rest)
  | case7 text gap c rest m apart single unbroken visible other marker =>
    rw [List.cons_append, singleQuotedFrom_cons_apart (apart_append apart ends)
      (single_append single), if_neg unbroken, if_neg visible, if_neg other, mark_next]
    have step := Follows.marker (w := w) (l := c :: rest) (x := none) '\'' m.column
      (y := singleQuotedFrom (c :: gap.join text) {} (rest ++ w.back) (w.mark m.next))
      (fun found => List.mem_cons_of_mem c (mem_of_singleQuotedFrom found)) rfl (by decide)
      (by decide) fun unmarked => absurd marker (by simp [unmarked])
    rwa [if_pos marker] at step
  | case8 text gap c rest m apart single unbroken visible other marker ih =>
    rw [List.cons_append, singleQuotedFrom_cons_apart (apart_append apart ends)
      (single_append single), if_neg unbroken, if_neg visible, if_neg other, mark_next]
    have step := Follows.marker (w := w) (l := c :: rest) '\'' m.column
      (fun found => List.mem_cons_of_mem c (mem_of_singleQuotedFrom found)) rfl (by decide)
      (by decide) fun _ => (ih ends.tail).mono (List.suffix_cons c rest)
    rwa [if_neg marker] at step

theorem readSingleQuoted_follows {c : Cursor} (ends : EndsVisibly c.rest) :
    w.Follows c.rest (readSingleQuoted c) (readSingleQuoted (w.cursor c)) :=
  singleQuotedFrom_follows [] {} ends c.mark

/-! ## Double quotes -/

/-- One step of a reader, over a character that does not begin a line break of two. -/
theorem doubleQuotedFrom_cons_apart {state : EscapeState} (apart : Apart c rest) :
    doubleQuotedFrom text gap state (c :: rest) m =
      match state with
      | .code missing value =>
        match Json.hexValue? c with
        | none => none
        | some digit =>
          if 1 < missing then
            doubleQuotedFrom text gap (.code (missing - 1) (16 * value + digit)) rest m.next
          else
            match charOfCode? (16 * value + digit) with
            | none => none
            | some c => doubleQuotedFrom (c :: text) {} .outside rest m.next
      | .started =>
        if isBreak c then doubleQuotedFrom text .escaped .outside rest (m.newline 1)
        else
          match codeLength? c with
          | some n => doubleQuotedFrom text gap (.code n 0) rest m.next
          | none =>
            match escapedChar? c with
            | none => none
            | some c => doubleQuotedFrom (c :: text) {} .outside rest m.next
      | .outside =>
        if isBreak c then doubleQuotedFrom text (gap.lineBreak c) .outside rest (m.newline 1)
        else if isSpacing c then doubleQuotedFrom text (gap.space c) .outside rest m.next
        else if c == '"' then some ((gap.join text).reverse, ⟨rest, m.next⟩)
        else if m.column == 0 && startsMarker (c :: rest) then none
        else if c == '\\' then doubleQuotedFrom (gap.join text) {} .started rest m.next
        else doubleQuotedFrom (c :: gap.join text) {} .outside rest m.next := by
  rw [doubleQuotedFrom.eq_def]
  split
  · rename_i same
    cases same
  · rename_i same
    cases same
    exact (apart _ rfl rfl).elim
  · rename_i same
    cases same
    rfl

/-- A scalar in quotes ends with one, so the margin is not part of it. -/
theorem mem_of_doubleQuotedFrom {state : EscapeState}
    (h : doubleQuotedFrom text gap state l m ≠ none) : '"' ∈ l := by
  fun_induction doubleQuotedFrom text gap state l m <;> grind

/-- Inside of margins a scalar in quotes is the same. -/
theorem doubleQuotedFrom_follows (text : List Char) (gap : Folding) (state : EscapeState)
    (ends : EndsVisibly l) (m : Mark) : w.Follows l (doubleQuotedFrom text gap state l m)
      (doubleQuotedFrom text gap state (l ++ w.back) (w.mark m)) := by
  induction l using break_induction generalizing text gap state m with
  | nil =>
    intro s d found
    have mem := mem_of_doubleQuotedFrom (found ▸ Option.some_ne_none _)
    exact absurd (w.blank _ mem) (by decide)
  | double rest ih =>
    have suffix : rest <:+ '\r' :: '\n' :: rest := List.suffix_append ['\r', '\n'] rest
    rw [List.cons_append, List.cons_append]
    cases state with
    | outside =>
      rw [doubleQuotedFrom, doubleQuotedFrom, mark_newline]
      exact (ih _ _ _ ends.tail.tail _).mono suffix
    | started =>
      rw [doubleQuotedFrom, doubleQuotedFrom, mark_newline]
      exact (ih _ _ _ ends.tail.tail _).mono suffix
    | code missing value =>
      rw [doubleQuotedFrom, doubleQuotedFrom]
      exact .nothing
  | single c rest apart ih =>
    have next {text gap state m} : w.Follows (c :: rest) (doubleQuotedFrom text gap state rest m)
        (doubleQuotedFrom text gap state (rest ++ w.back) (w.mark m)) :=
      (ih text gap state ends.tail m).mono (List.suffix_cons c rest)
    rw [List.cons_append, doubleQuotedFrom_cons_apart apart,
      doubleQuotedFrom_cons_apart (apart_append apart ends)]
    simp only [mark_newline, mark_next, column_mark]
    cases state with
    | outside =>
      refine .ite (fun _ => next) fun _ => .ite (fun _ => next) fun _ => .ite (fun _ => ?_)
        fun _ => ?_
      · exact .found (c := ⟨rest, m.next⟩) (List.suffix_cons c rest)
      · refine Follows.marker '"' m.column (fun found => ?_) rfl (by decide)
          (by decide) fun _ => .ite (fun _ => next) fun _ => next
        refine List.mem_cons_of_mem c ?_
        split at found <;> exact mem_of_doubleQuotedFrom found
    | started =>
      refine .ite (fun _ => next) fun _ => ?_
      cases codeLength? c with
      | some n => exact next
      | none =>
        cases escapedChar? c with
        | none => exact .nothing
        | some c => exact next
    | code missing value =>
      cases Json.hexValue? c with
      | none => exact .nothing
      | some digit =>
        refine .ite (fun _ => next) fun _ => ?_
        cases charOfCode? (16 * value + digit) with
        | none => exact .nothing
        | some c => exact next

theorem readDoubleQuoted_follows {c : Cursor} (ends : EndsVisibly c.rest) :
    w.Follows c.rest (readDoubleQuoted c) (readDoubleQuoted (w.cursor c)) :=
  doubleQuotedFrom_follows [] {} .outside ends c.mark

end RoomAudio.Yaml
