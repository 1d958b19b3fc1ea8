import RoomAudio.Proofs.Yaml.Indentation.Move
import RoomAudio.Proofs.Yaml.Progress

/-!
# Texts with an indented first line

The lines of a text hang on its first line if all of them are indented deeper than the blocks of the
first line, or belong to a list in the column of its only key. Such a text has the same events when
its first line is not indented.

## Main definitions

* `Yaml.Scanner.hangs` — whether the lines of a text hang on its first line.
* `Yaml.eventsOf_scan_indent` — the events of a text whose lines hang on its first line.
-/

namespace RoomAudio.Yaml

namespace Scanner

/-- Whether the lines of a text that is indented by `k` spaces hang on its first line: every token
belongs to a phase of the text, and means the same when it is not indented. -/
def hangs (k : Nat) (phase : Phase) : Nat → Scanner → Bool
  | 0, _ => true
  | n + 1, s =>
    let t := s.skipGap
    t.beginsAlike k &&
      match phase.next t with
      | none => false
      | some phase =>
        phase.readsAlike k t &&
          match s.fetch with
          | none => true
          | some s => s.ended || hangs k phase n s

end Scanner

/-! ## All steps -/

/-- The tokens are the same, but for the block of a list. -/
def Boxed (l l' : List Token) : Prop :=
  l' = l ∨ ∃ (record : BareList) (after : List Token),
    l = record.tokens ++ after ∧ l' = record.boxed ++ after

/-- What is found in all by two scanners that go along. -/
theorem boxed_of_ended {k : Nat} {phase : Phase} {s t : Scanner}
    (apart : ∀ edge front begins, phase ≠ .list edge front begins)
    (ended : (phase.pairing k).Ended t s) : Boxed t.found.reverse s.found.reverse := by
  obtain ⟨later, found, found'⟩ := ended.found
  rw [found, found']
  cases phase with
  | first => exact .inl rfl
  | deeper edge => exact .inl rfl
  | list edge front begins => exact absurd rfl (apart edge front begins)
  | behind record =>
    refine .inr ⟨record, later.reverse, ?_, ?_⟩
    · simp [Phase.before]
    · simp [Phase.before']

/-- A text whose lines hang on its first line consists of the same tokens as the text alone, but for
the block of a list. -/
theorem run_of_hangs {k n : Nat} {phase : Phase} {s t : Scanner} (wide : 0 < k)
    (h : (phase.pairing k).Along t s) (hangs : t.hangs k phase n = true)
    (whole : (t.run n).2 = true) : (s.run n).2 = true ∧ Boxed (t.run n).1 (s.run n).1 := by
  induction n generalizing s t phase with
  | zero => cases whole
  | succ n ih =>
    rw [Scanner.hangs, Bool.and_eq_true] at hangs
    obtain ⟨begins, hangs⟩ := hangs
    cases found : phase.next t.skipGap with
    | none =>
      rw [found] at hangs
      cases hangs
    | some phase' =>
      rw [found] at hangs
      dsimp only at hangs
      rw [Bool.and_eq_true] at hangs
      obtain ⟨reads, hangs⟩ := hangs
      rw [Scanner.run] at whole
      rw [Scanner.run, Scanner.run]
      cases step : t.fetch with
      | none =>
        rw [step] at whole
        cases whole
      | some t' =>
        rw [step] at whole hangs
        dsimp only at whole hangs ⊢
        obtain fell | ⟨s', step', along | ⟨last, ended⟩⟩ :=
          Phase.fetch wide h begins found reads t' step
        · rw [fell.going] at whole hangs
          cases n with
          | zero => cases whole
          | succ n => simp [Scanner.hangs, Phase.next_of_fell fell] at hangs
        · rw [step', along.going]
          rw [along.going] at whole hangs
          dsimp only
          rw [along.going']
          exact ih along hangs whole
        · rw [step', if_pos ended.ended]
          dsimp only
          rw [if_pos ended.ended']
          have inside : t.skipGap.isOutside = false := by simp [Scanner.isOutside, last]
          exact ⟨rfl, boxed_of_ended
            (fun _ _ _ => Phase.not_list_of_next found inside (.inr last)) ended⟩

/-! ## Whole texts -/

section Start

variable {k : Nat} {core : List Char}

def Scanner.behind (k : Nat) (core : List Char) : Scanner :=
  { cursor := ⟨core, ({} : Mark).indent k⟩ }

/-- Behind the spaces the two scanners go along from the start. -/
theorem along_behind (k : Nat) (core : List Char) :
    (Phase.first.pairing k).Along (Scanner.behind k core) (Scanner.start core) where
  cursor := rfl
  flowLevel := rfl
  blocks := ⟨rfl, rfl⟩
  keyAllowed := rfl
  candidate := rfl
  outerCandidates := rfl
  found := ⟨[], rfl, rfl⟩
  count := rfl
  count' := rfl
  going := rfl
  going' := rfl
  levels := rfl
  keys := ⟨by simp [Scanner.start], by simp [Scanner.start]⟩

theorem skipGap_start (k : Nat) (core : List Char) :
    (Scanner.start (indentation k ++ core)).skipGap = (Scanner.behind k core).skipGap := by
  have place : ({} : Mark).advance k = ({} : Mark).indent k := by simp [Mark.advance, Mark.indent]
  have spaces : Scanner.gapFrom false true false (indentation k ++ core) {} =
      Scanner.gapFrom false true false core (({} : Mark).indent k) := by
    rw [Scanner.gapFrom_indentation, place]
  exact Scanner.skipGap_eq (s := Scanner.start (indentation k ++ core)) spaces

theorem fetch_start (k : Nat) (core : List Char) :
    (Scanner.start (indentation k ++ core)).fetch = (Scanner.behind k core).fetch := by
  rw [Scanner.fetch_eq, Scanner.fetch_eq, skipGap_start]
  rfl

/-- The spaces in front are passed before the first token. -/
theorem run_start (k : Nat) (core : List Char) (n : Nat) :
    (Scanner.start (indentation k ++ core)).run n = (Scanner.behind k core).run n := by
  have settled : (Scanner.start (indentation k ++ core)).settled =
      (Scanner.behind k core).settled := by
    simp [Scanner.settled, Scanner.start, Scanner.behind]
  cases n with
  | zero => exact congrArg (·, false) settled
  | succ n => rw [Scanner.run, Scanner.run, fetch_start, settled]

theorem hangs_start (k : Nat) (core : List Char) (phase : Phase) (n : Nat) :
    (Scanner.start (indentation k ++ core)).hangs k phase n =
      (Scanner.behind k core).hangs k phase n := by
  cases n with
  | zero => rfl
  | succ n => rw [Scanner.hangs, Scanner.hangs, skipGap_start, fetch_start]

/-- A text whose lines hang on its first line has the same events if that line is not indented. -/
theorem eventsOf_scan_indent (wide : 0 < k)
    (hangs : (Scanner.start (indentation k ++ core)).hangs k .first
      ((indentation k ++ core).length + 2) = true)
    (whole : (scan (indentation k ++ core)).2 = true)
    (ends : Event.streamEnd ∈ eventsOf (scan (indentation k ++ core)).1) :
    eventsOf (scan core).1 = eventsOf (scan (indentation k ++ core)).1 := by
  rw [scan] at whole
  split at whole
  · rename_i permitted
    have permitted' : core.all isPermitted = true := by
      rw [List.all_eq_true] at permitted ⊢
      exact fun c mem => permitted c (by simp [mem])
    rw [run_start] at whole
    rw [hangs_start] at hangs
    obtain ⟨whole', boxed⟩ := run_of_hangs wide (along_behind k core) hangs whole
    have enough : (Scanner.start core).cursor.rest.length < core.length + 2 := by
      change core.length < core.length + 2
      omega
    have same : scan (indentation k ++ core) = (Scanner.behind k core).run _ :=
      (if_pos permitted).trans (run_start k core _)
    rw [same] at ends ⊢
    rw [scan, if_pos permitted', Scanner.run_of_run whole' enough]
    obtain same | ⟨record, after, tokens, tokens'⟩ := boxed
    · rw [same]
    · rw [tokens] at ends ⊢
      rw [tokens']
      exact record.eventsOf_boxed ends
  · cases whole

end Start

end RoomAudio.Yaml
