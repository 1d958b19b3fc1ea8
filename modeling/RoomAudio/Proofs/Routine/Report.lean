import RoomAudio.Player.Script
import RoomAudio.Proofs.Json.Number
import RoomAudio.Proofs.Routine.Preparation
import RoomAudio.Proofs.Text.Pieces

/-!
# Reports as lines

The plain form of a report joins a summary and one entry for each step by line feeds. Most of what
is written is known: numbers, names of kinds and modes, and fixed words. Only the name of the
routine and what a failed step says are texts of any form. As long as these two are free of line
feeds, the summary and the entries are the lines of the report.

## Main definitions

* `Text.lines` — what stands between the line feeds of a text.
* `Document.Entries` — the entries that are reported about a routine.
* `Outcome.remark`, `StepReport.label` — the two ends of an entry.
* `plain_report_lines` — the lines of a report and their form.
-/

namespace RoomAudio

/-! ## Texts on one line -/

def Text.lines (s : String) : List String := (splitOn (· == '\n') s.toList).map String.ofList

def Text.OnOneLine (s : String) : Prop := '\n' ∉ s.toList

instance (s : String) : Decidable (Text.OnOneLine s) := inferInstanceAs (Decidable (_ ∉ _))

namespace Text.OnOneLine

variable {s s' : String}

theorem append (h : OnOneLine s) (h' : OnOneLine s') : OnOneLine (s ++ s') := by
  rw [OnOneLine, String.toList_append, List.mem_append, not_or]
  exact ⟨h, h'⟩

theorem number (n : Nat) : OnOneLine (toString n) := by
  intro mem
  have digits : (toString n).toList = Nat.toDigits 10 n := by simp [toString, Nat.repr]
  rw [digits] at mem
  exact absurd (Json.isDigit_of_mem_digits mem) (by decide)

theorem boolName (b : Bool) : OnOneLine (Data.boolName b) := by
  cases b <;> decide

end Text.OnOneLine

/-- Texts on one line each are the lines of the text that they are joined to. -/
theorem Text.lines_intercalate {parts : List String} (h : ∀ part ∈ parts, OnOneLine part)
    (filled : parts ≠ []) : lines (String.intercalate "\n" parts) = parts := by
  have cut := splitOn_intercalate h filled
  rw [lines, show "\n" = String.singleton '\n' from rfl, cut, List.map_map]
  simp

/-! ## Entries -/

def Outcome.remark : Outcome → String
  | .skipped => " skipped"
  | .failed error => if error.isEmpty then "" else " error=" ++ error
  | _ => ""

namespace StepReport

def label (total : Nat) (r : StepReport) : String :=
  s!"{r.step.index + 1}/{total} {r.step.step.kind} ok="

/-- A line is a label, a verdict and a remark. -/
theorem line_eq (total : Nat) (r : StepReport) :
    r.line total = r.label total ++ Data.boolName r.outcome.isOk ++ r.outcome.remark := by
  have verdict : r.line total = r.label total ++ Data.boolName r.outcome.isOk ++
      if r.outcome.isSkipped then " skipped"
      else if r.outcome.error.isEmpty then ""
      else " error=" ++ r.outcome.error := by
    unfold line label
    rfl
  rw [verdict]
  cases r.outcome <;> rfl

end StepReport

/-- An element that a list does not have keeps what is in front of it out of the end. -/
theorem suffix_append_cons_iff {α : Type} {l a b : List α} {x : α} (h : x ∉ l) :
    l <:+ a ++ x :: b ↔ l <:+ b := by
  constructor
  · intro ends
    rcases List.suffix_or_suffix_of_suffix ends (List.suffix_append a (x :: b)) with inside | past
    · rcases List.suffix_cons_iff.mp inside with rfl | inside
      · simp at h
      · exact inside
    · exact absurd (past.subset (by simp)) h
  · intro ends
    exact (ends.trans (List.suffix_cons x b)).trans (List.suffix_append a _)

namespace StepReport

variable {total : Nat} {r : StepReport}

/-- The label of a step that keeps the rules is free of line feeds. -/
theorem onOneLine_label (valid : r.step.step.Valid) : Text.OnOneLine (r.label total) := by
  have kind : Text.OnOneLine r.step.step.kind := by
    cases step : r.step.step with
    | outSet rooms => exact (by decide : Text.OnOneLine "out.set")
    | play query playlistId => exact (by decide : Text.OnOneLine "play")
    | volumeSet value rooms => exact (by decide : Text.OnOneLine "volume.set")
    | wait state timeout => exact (by decide : Text.OnOneLine "wait")
    | transport action => exact (by decide : Text.OnOneLine "transport")
    | unsupported kind =>
      rw [step] at valid
      exact valid.elim
  have place : Text.OnOneLine (toString (r.step.index + 1) ++ "/" ++ toString total ++ " ") :=
    (((Text.OnOneLine.number _).append (by decide)).append (.number _)).append (by decide)
  exact (place.append kind).append (by decide)

/-- The entry of a valid step is on one line, unless the step says otherwise. -/
theorem onOneLine_line (valid : r.step.step.Valid)
    (said : ∀ error, r.outcome = .failed error → Text.OnOneLine error) :
    Text.OnOneLine (r.line total) := by
  have remark : Text.OnOneLine r.outcome.remark := by
    cases outcome : r.outcome with
    | failed error =>
      rw [Outcome.remark]
      split
      · decide
      · exact Text.OnOneLine.append (by decide) (said error outcome)
    | _ => decide
  rw [line_eq]
  exact ((onOneLine_label valid).append (.boolName _)).append remark

theorem label_prefix_line : (r.label total).toList <+: (r.line total).toList := by
  rw [line_eq, String.append_assoc, String.toList_append]
  exact List.prefix_append _ _

/-- A verdict is no part of the word behind it. -/
theorem not_skipped_suffix_boolName (front : List Char) (b : Bool) :
    ¬" skipped".toList <:+ front ++ (Data.boolName b).toList ++ "".toList := by
  intro ends
  rw [show "".toList = [] from rfl, List.append_nil] at ends
  cases b with
  | true =>
    have rest := (suffix_append_cons_iff (b := "rue".toList) (by decide)).mp ends
    exact absurd rest (by decide)
  | false =>
    have rest := (suffix_append_cons_iff (b := "alse".toList) (by decide)).mp ends
    exact absurd rest (by decide)

/-- An error may end like the remark about a skipped step. -/
theorem skipped_suffix_append_error_iff (front error : List Char) :
    " skipped".toList <:+ front ++ (" error=".toList ++ error) ↔ " skipped".toList <:+ error := by
  have split : front ++ (" error=".toList ++ error) = front ++ " error".toList ++ '=' :: error := by
    simp
  rw [split]
  exact suffix_append_cons_iff (by decide)

/-- An entry ends like that of a skipped step if the step was skipped, or if what it says itself
ends so. -/
theorem skipped_suffix_line_iff :
    " skipped".toList <:+ (r.line total).toList ↔ r.outcome.isSkipped = true ∨
      ∃ error, r.outcome = .failed error ∧ " skipped".toList <:+ error.toList := by
  rw [line_eq, String.toList_append, String.toList_append]
  generalize (r.label total).toList = front
  cases r.outcome with
  | planned =>
    refine iff_of_false (not_skipped_suffix_boolName front true) ?_
    rintro (h | ⟨_, h, -⟩) <;> cases h
  | succeeded =>
    refine iff_of_false (not_skipped_suffix_boolName front true) ?_
    rintro (h | ⟨_, h, -⟩) <;> cases h
  | skipped => exact iff_of_true (List.suffix_append _ _) (.inl rfl)
  | failed error =>
    have said : (∃ text, Outcome.failed error = .failed text ∧ " skipped".toList <:+ text.toList) ↔
        " skipped".toList <:+ error.toList := by simp
    have carriedOut : (Outcome.failed error).isSkipped = false := rfl
    rw [carriedOut, said, Outcome.remark]
    split
    · rename_i empty
      rw [String.isEmpty_iff] at empty
      rw [empty]
      exact iff_of_false (not_skipped_suffix_boolName front false) (by decide)
    · rw [String.toList_append, skipped_suffix_append_error_iff]
      simp

/-- What a step says stands directly behind the verdict if it failed itself and says something. -/
theorem error_prefix_line_iff :
    (r.label total ++ Data.boolName r.outcome.isOk ++ " error=").toList <+: (r.line total).toList ↔
      ∃ error, r.outcome = .failed error ∧ error ≠ "" := by
  rw [line_eq, String.toList_append, @String.toList_append (_ ++ _) r.outcome.remark,
    List.prefix_append_right_inj]
  cases r.outcome with
  | planned => exact iff_of_false (by decide) (by simp)
  | succeeded => exact iff_of_false (by decide) (by simp)
  | skipped => exact iff_of_false (by decide) (by simp)
  | failed error =>
    rw [Outcome.remark]
    split
    · rename_i empty
      rw [String.isEmpty_iff] at empty
      rw [empty]
      exact iff_of_false (by decide) (by simp)
    · rename_i said
      rw [String.isEmpty_iff] at said
      rw [String.toList_append]
      exact iff_of_true (List.prefix_append _ _) ⟨error, rfl, said⟩

end StepReport

/-! ## Reports -/

/-- The summary is on one line if the name is. -/
theorem Report.onOneLine_summary {r : Report} (name : Text.OnOneLine r.name) :
    Text.OnOneLine r.summary := by
  have mode : Text.OnOneLine r.mode.name := by
    cases r.mode <;> decide
  have front : Text.OnOneLine
      (r.name ++ " mode=" ++ r.mode.name ++ " ok=" ++ Data.boolName r.ok) :=
    (((name.append (by decide)).append mode).append (by decide)).append (.boolName _)
  have count : Text.OnOneLine (" steps=" ++ toString r.steps.length ++ " ") :=
    (Text.OnOneLine.append (by decide) (.number _)).append (by decide)
  have duration : Text.OnOneLine ("duration=" ++ toString r.period.durationMs ++ "ms") :=
    (Text.OnOneLine.append (by decide) (.number _)).append (by decide)
  have joined : r.summary = r.name ++ " mode=" ++ r.mode.name ++ " ok=" ++ Data.boolName r.ok ++
      (" steps=" ++ toString r.steps.length ++ " ") ++
      ("duration=" ++ toString r.period.durationMs ++ "ms") := by
    simp only [Report.summary, ← String.append_assoc]
    rfl
  rw [joined]
  exact (front.append count).append duration

namespace Document

variable {d : Document} {settings : Settings} {mode : Mode} {entries : List StepReport}

/-- The entries that are reported about a routine that was looked at or carried out, whatever the
player did. -/
inductive Entries (d : Document) (settings : Settings) : Mode → List StepReport → Prop where
  | previewed {mode : Mode} {entries : List StepReport}
      (found : d.preview mode settings.defaults = .ok entries) : Entries d settings mode entries
  | carriedOut {σ : Type} {e : Environment σ} {s t : Session σ} {entries : List StepReport}
      (found : d.run settings.defaults settings.shortcuts e s = .ok (entries, t)) :
      Entries d settings .run entries

/-- The entries belong to the steps of a valid routine, one by one. -/
theorem Entries.steps (h : d.Entries settings mode entries) :
    entries.length = d.steps.length ∧ ∀ (i : Nat) (entry : StepReport), entries[i]? = some entry →
      entry.step.index = i ∧ d.steps[i]? = some entry.step.step ∧ entry.step.step.Valid := by
  obtain ⟨defaults, resolved, prepared, same⟩ : ∃ defaults resolved,
      d.prepare defaults = .ok resolved ∧ entries.map StepReport.step = resolved := by
    cases h with
    | previewed found =>
      obtain ⟨defaults, found⟩ : ∃ defaults, d.planned defaults = .ok entries := by
        cases mode <;> exact ⟨_, found⟩
      unfold planned at found
      cases prepared : d.prepare defaults with
      | error problem =>
        rw [prepared] at found
        cases found
      | ok resolved =>
        rw [prepared] at found
        cases found
        exact ⟨defaults, resolved, prepared, by simp [StepReport.planned, Function.comp_def]⟩
    | @carriedOut σ e s t _ found =>
      unfold run at found
      cases prepared : d.prepare settings.defaults with
      | error problem =>
        rw [prepared] at found
        cases found
      | ok resolved =>
        rw [prepared] at found
        have same : e.runSteps settings.shortcuts resolved s = (entries, t) := Except.ok.inj found
        refine ⟨settings.defaults, resolved, prepared, ?_⟩
        rw [← e.map_step_runSteps settings.shortcuts resolved s, same]
  rw [prepare, check_bind_ok_iff] at prepared
  have valid := ((validate_ok_iff d).mp prepared.1).steps
  obtain ⟨length, each⟩ := listedBy_of_resolveSteps prepared.2
  have all : entries.length = d.steps.length := by rw [← length, ← same, List.length_map]
  refine ⟨all, fun i entry here => ?_⟩
  obtain ⟨inside, -⟩ := List.getElem?_eq_some_iff.mp here
  have step := List.getElem?_eq_getElem (all ▸ inside)
  obtain ⟨p, listed, -⟩ := each i _ step
  rw [← same, List.getElem?_map, here] at listed
  have entryStep : entry.step = ⟨i, d.steps[i], p⟩ := Option.some.inj listed
  rw [entryStep]
  exact ⟨rfl, step, valid _ (List.getElem_mem _)⟩

end Document

/-- The plain report about a routine that was looked at or carried out, whatever it is called and
whatever the player said. It joins a summary and one entry for each step by line feeds. The entry of
a step begins with the place of the step, the number of steps and the kind; it ends with `skipped`
if the step was skipped, or if what a failed step says ends so; and it goes on with what the step
says directly behind the verdict if the step failed itself and says something. The summary and the
entries are the lines of the report if the name of the routine and what failed steps say are on one
line. -/
theorem plain_report_lines {d : Document} {settings : Settings} {mode : Mode}
    {entries : List StepReport} (reported : d.Entries settings mode entries) (period : Period) :
    let report := Report.of d mode period entries
    let lines := entries.map (StepReport.line d.steps.length)
    report.render false = String.intercalate "\n" (report.summary :: lines) ∧
    lines.length = d.steps.length ∧
    (∀ (i : Nat) (entry : StepReport), entries[i]? = some entry → ∃ step line,
      d.steps[i]? = some step ∧ lines[i]? = some line ∧
      s!"{i + 1}/{d.steps.length} {step.kind} ok=".toList <+: line.toList ∧
      (" skipped".toList <:+ line.toList ↔ entry.outcome.isSkipped = true ∨
        ∃ error, entry.outcome = .failed error ∧ " skipped".toList <:+ error.toList) ∧
      (s!"{i + 1}/{d.steps.length} {step.kind} ok={Data.boolName entry.outcome.isOk} error=".toList
          <+: line.toList ↔ ∃ error, entry.outcome = .failed error ∧ error ≠ "")) ∧
    ('\n' ∉ d.name.toList →
      (∀ entry ∈ entries, ∀ error, entry.outcome = .failed error → '\n' ∉ error.toList) →
      Text.lines (report.render false) = report.summary :: lines) := by
  intro report lines
  obtain ⟨length, steps⟩ := reported.steps
  have joined : report.render false = String.intercalate "\n" (report.summary :: lines) := by
    simp [Report.render, Report.plain, report, lines, Report.of, length]
  refine ⟨joined, by simp [lines, length], ?_, ?_⟩
  · intro i entry here
    obtain ⟨index, step, -⟩ := steps i entry here
    have label : entry.label d.steps.length =
        s!"{i + 1}/{d.steps.length} {entry.step.step.kind} ok=" := by
      rw [StepReport.label, index]
    refine ⟨_, _, step, by simp [lines, here]; rfl, ?_, StepReport.skipped_suffix_line_iff, ?_⟩
    · rw [← label]
      exact StepReport.label_prefix_line
    · rw [← label]
      exact StepReport.error_prefix_line_iff
  · intro name said
    rw [joined]
    refine Text.lines_intercalate ?_ (by simp)
    intro line mem
    rcases List.mem_cons.mp mem with rfl | mem
    · exact Report.onOneLine_summary name
    · obtain ⟨entry, listed, rfl⟩ := List.mem_map.mp mem
      obtain ⟨i, inside, rfl⟩ := List.getElem_of_mem listed
      obtain ⟨-, -, valid⟩ := steps i _ (List.getElem?_eq_getElem inside)
      exact StepReport.onOneLine_line valid (said _ listed)

def Document.stopTwice (name : String) : Document where
  version := "1"
  name
  steps := [.transport "stop", .transport "stop"]

/-- A player that does not stop, and what it says about it. -/
def Script.unstoppable (said : String) : Script where
  faults := [("stop", .because said)]

def Document.stopTwiceEntries (said : String) : List StepReport :=
  [⟨⟨0, .transport "stop", .transport .stop⟩, .failed said, 0⟩,
    ⟨⟨1, .transport "stop", .transport .stop⟩, .skipped, 0⟩]

/-- The second step is skipped after the first one has failed. -/
theorem plain_report_lines_stopped :
    (∃ t, (Document.stopTwice "quiet").run {} {}
      (Script.unstoppable "player unavailable").environment { world := { states := [] } } =
        .ok (Document.stopTwiceEntries "player unavailable", t)) ∧
    Text.lines ((Report.of (.stopTwice "quiet") .run ⟨⟨0, 0⟩, ⟨0, 0⟩, 12⟩
      (Document.stopTwiceEntries "player unavailable")).render false) =
        ["quiet mode=run ok=false steps=2 duration=12ms",
          "1/2 transport ok=false error=player unavailable", "2/2 transport ok=false skipped"] := by
  have found : ∃ t, (Document.stopTwice "quiet").run {} {}
      (Script.unstoppable "player unavailable").environment { world := { states := [] } } =
        .ok (Document.stopTwiceEntries "player unavailable", t) := ⟨_, rfl⟩
  refine ⟨found, ?_⟩
  obtain ⟨t, found⟩ := found
  have reported : (Document.stopTwice "quiet").Entries {} .run
      (Document.stopTwiceEntries "player unavailable") := .carriedOut found
  have lines := (plain_report_lines reported ⟨⟨0, 0⟩, ⟨0, 0⟩, 12⟩).2.2.2 (by decide)
  rw [lines]
  · rfl
  · intro entry mem error failed
    rcases List.mem_pair.mp mem with rfl | rfl <;> cases failed
    decide

/-- What a player says can itself end like the entry of a skipped step. -/
theorem skipped_said_by_player :
    ¬ ∀ (d : Document) (settings : Settings) (mode : Mode) (entries : List StepReport)
      (period : Period), d.Entries settings mode entries → ∃ summary lines,
        Text.lines ((Report.of d mode period entries).render false) = summary :: lines ∧
        lines.length = d.steps.length ∧
        ∀ (i : Nat) (entry : StepReport) (line : String), entries[i]? = some entry →
          lines[i]? = some line →
          (" skipped".toList <:+ line.toList ↔ entry.outcome.isSkipped = true) := by
  intro never
  have found : ∃ t, (Document.stopTwice "quiet").run {} {}
      (Script.unstoppable "track skipped").environment { world := { states := [] } } =
        .ok (Document.stopTwiceEntries "track skipped", t) := ⟨_, rfl⟩
  obtain ⟨t, found⟩ := found
  obtain ⟨summary, lines, same, -, ends⟩ :=
    never _ {} .run _ ⟨⟨0, 0⟩, ⟨0, 0⟩, 12⟩ (.carriedOut found)
  have second : lines[0]? = some "1/2 transport ok=false error=track skipped" := by
    have behind : lines = (summary :: lines).drop 1 := rfl
    rw [behind, ← same]
    decide +kernel
  have skipped := (ends 0 _ _ rfl second).mp (by decide)
  cases skipped

end RoomAudio
