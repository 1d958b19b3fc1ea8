import RoomAudio.Proofs.Yaml.Margin.Run

/-!
# Texts inside of blank margins

A text with lines of spaces in front of it and blank characters behind it consists of the same
tokens as the text alone, if no scalar reaches into the margin behind it.

## Main definitions

* `Yaml.areBlankLines` — whole lines of spaces.
* `Yaml.scan_margin` — the tokens of a text inside of margins are those of the text alone.
-/

namespace RoomAudio.Yaml

open Margin
open Text (isBlank)

/-- Whether a text consists of whole lines of spaces. -/
def areBlankLines (l : List Char) : Bool :=
  l.all (fun c => c == ' ' || isBreak c) && l.getLast?.all isBreak

namespace Scanner

variable {front l : List Char} {m : Mark}

/-! ## Lines of spaces -/

/-- Lines of spaces in front of a text are passed, up to the beginning of a line if the last one is
complete. -/
theorem exists_gapFrom_lines (lines : ∀ c ∈ front, c = ' ' ∨ isBreak c = true)
    (apart : l.head? ≠ some '\n') (m : Mark) :
    ∃ n, gapFrom false true false (front ++ l) m = gapFrom false true false l n ∧
      (front.getLast?.any isBreak = true ∨ front = [] ∧ m.column = 0 → n.column = 0) := by
  induction front using break_induction generalizing m with
  | nil => exact ⟨m, rfl, by simp⟩
  | double rest ih =>
    obtain ⟨n, same, column⟩ := ih (fun c mem => lines c (by simp [mem])) (m.newline 2)
    refine ⟨n, ?_, fun ends => column ?_⟩
    · rw [List.cons_append, List.cons_append, gapFrom, ← same]
      rfl
    · cases rest with
      | nil => exact .inr ⟨rfl, rfl⟩
      | cons c rest => simpa using ends
  | single c rest apart' ih =>
    have apart' : Apart c (rest ++ l) := by
      rintro tail rfl two
      cases rest with
      | cons d rest =>
        obtain ⟨rfl, -⟩ := List.cons.inj two
        exact apart' rest rfl rfl
      | nil =>
        rw [List.nil_append] at two
        exact apart (by rw [two]; rfl)
    rw [List.cons_append, gapFrom_cons apart']
    have later : ∀ c ∈ rest, c = ' ' ∨ isBreak c = true := fun c mem => lines c (by simp [mem])
    rcases lines c (by simp) with rfl | breaks
    · obtain ⟨n, same, column⟩ := ih later m.next
      refine ⟨n, by simpa [isBreak, byteOrderMark] using same, fun ends => column ?_⟩
      cases rest with
      | nil => simp [isBreak] at ends
      | cons c rest => simpa using ends
    · obtain ⟨n, same, column⟩ := ih later (m.newline 1)
      refine ⟨n, by rw [if_pos breaks]; exact same, fun ends => column ?_⟩
      cases rest with
      | nil => exact .inr ⟨rfl, rfl⟩
      | cons c rest => simpa using ends

/-- Whole lines of spaces lead to the beginning of a line. -/
theorem gapFrom_lines (lines : areBlankLines front = true) (apart : l.head? ≠ some '\n') :
    ∃ n : Mark, n.column = 0 ∧
      gapFrom false true false (front ++ l) {} = gapFrom false true false l n := by
  rw [areBlankLines, Bool.and_eq_true] at lines
  obtain ⟨n, same, column⟩ := exists_gapFrom_lines (by simpa using lines.1) apart {}
  refine ⟨n, column ?_, same⟩
  cases last : front.getLast? with
  | none => exact .inr ⟨by simpa using last, rfl⟩
  | some c => exact .inl (by simpa [last] using lines.2)

end Scanner

/-! ## The beginning of a text -/

/-- The scanners of a text alone and inside of margins come to places that belong together. -/
theorem tracks_start {front core back : List Char} (lines : areBlankLines front = true)
    (apart : (core ++ back).head? ≠ some '\n') (ends : EndsVisibly core)
    (blank : ∀ c ∈ back, isBlank c = true) :
    ∃ w : Margin, w.Tracks (Scanner.start core).skipGap
      (Scanner.start (front ++ (core ++ back))).skipGap := by
  obtain ⟨n, column, passed⟩ := Scanner.gapFrom_lines lines apart
  let w : Margin := ⟨n.index, n.line, back, blank⟩
  have tracks : w.Tracks (Scanner.start core).skipGap (w.scanner (Scanner.start core)).skipGap :=
    (Tracks.scanner ends rfl).skipGap
  have place : w.mark {} = n := by
    obtain ⟨index, line, _⟩ := n
    cases column
    simp [w, Margin.mark]
  have same : (w.scanner (Scanner.start core)).skipGap =
      (Scanner.start (front ++ (core ++ back))).skipGap := by
    have gap : Scanner.gapFrom false true false (front ++ (core ++ back)) {} =
        Scanner.gapFrom false true false (core ++ back) (w.mark {}) := by rw [passed, place]
    exact (Scanner.skipGap_eq (s := Scanner.start (front ++ (core ++ back))) gap).symm
  exact ⟨w, same ▸ tracks⟩

/-- The tokens of a text inside of margins are those of the text alone. -/
theorem scan_margin {front core back : List Char} (lines : areBlankLines front = true)
    (apart : (core ++ back).head? ≠ some '\n') (ends : EndsVisibly core)
    (blank : ∀ c ∈ back, isBlank c = true) (whole : (scan (front ++ (core ++ back))).2 = true)
    (kept : ((Scanner.start (front ++ (core ++ back))).final
      ((front ++ (core ++ back)).length + 2)).any Scanner.isLosing = false) :
    scan core = scan (front ++ (core ++ back)) := by
  obtain ⟨w, tracks⟩ := tracks_start lines apart ends blank
  rw [scan] at whole ⊢
  split at whole
  · rename_i permitted
    have permitted' : core.all isPermitted = true := by
      rw [List.all_eq_true] at permitted ⊢
      exact fun a mem => permitted a (by simp [mem])
    rw [scan, if_pos permitted, if_pos permitted']
    have enough : (Scanner.start core).skipGap.cursor.rest.length < core.length + 2 :=
      (Scanner.start core).suffix_skipGap.length_le.trans_lt (by change core.length < _; omega)
    exact run_eq_run tracks (fun _ => rfl) whole kept enough
  · cases whole

end RoomAudio.Yaml
