import RoomAudio.Json.Printer
import RoomAudio.Routine.Record
import RoomAudio.Routine.Resolution
import RoomAudio.Timestamp

/-!
# Reports

What is reported about a routine that was checked, planned or run: one entry for each step, and how
the report is written.

## Main definitions

* `Mode` — what was done with the routine.
* `Outcome`, `StepReport` — what became of a step.
* `Report` — the entries of all steps with a head.
* `Report.toData`, `Report.plain` — the two forms of a report.
-/

namespace RoomAudio

inductive Mode where
  | validate | plan | dryRun | run
  deriving DecidableEq, Repr

namespace Mode

def name : Mode → String
  | .validate => "validate"
  | .plan => "plan"
  | .dryRun => "dry-run"
  | .run => "run"

def ofName? (s : String) : Option Mode :=
  [validate, plan, dryRun, run].find? (·.name = s)

end Mode

inductive Outcome where
  /-- Its parameters are known; it was not to be carried out. -/
  | planned
  | succeeded
  | failed (error : String)
  /-- A step before it failed. -/
  | skipped
  deriving DecidableEq, Repr

namespace Outcome

def isOk : Outcome → Bool
  | .planned => true
  | .succeeded => true
  | _ => false

def isSkipped : Outcome → Bool
  | .skipped => true
  | _ => false

def error : Outcome → String
  | .failed error => error
  | .skipped => "skipped due to previous step failure"
  | _ => ""

end Outcome

structure StepReport where
  step : ResolvedStep
  outcome : Outcome
  durationMs : Nat := 0
  deriving DecidableEq, Repr

namespace StepReport

def planned (step : ResolvedStep) : StepReport := { step, outcome := .planned }

def toData (r : StepReport) : Data :=
  .record <|
    [("index", .int r.step.index), ("type", .text r.step.step.kind),
      ("input", r.step.step.toData), ("resolved", r.step.parameters.toData),
      ("ok", .bool r.outcome.isOk), ("skipped", .bool r.outcome.isSkipped)] ++
    (if r.outcome.error.isEmpty then [] else [("error", .text r.outcome.error)]) ++
    [("durationMs", .int r.durationMs)]

def line (total : Nat) (r : StepReport) : String :=
  s!"{r.step.index + 1}/{total} {r.step.step.kind} ok={Data.boolName r.outcome.isOk}" ++
    if r.outcome.isSkipped then " skipped"
    else if r.outcome.error.isEmpty then ""
    else s!" error={r.outcome.error}"

end StepReport

structure Period where
  startedAt : Timestamp
  endedAt : Timestamp
  durationMs : Nat
  deriving DecidableEq, Repr

structure Report where
  name : String
  version : String
  mode : Mode
  ok : Bool
  period : Period
  steps : List StepReport
  deriving DecidableEq, Repr

namespace Report

/-- The report about a routine; it is good when every entry is. -/
def of (d : Document) (mode : Mode) (period : Period) (steps : List StepReport) : Report where
  name := d.name
  version := d.version
  mode
  ok := steps.all (·.outcome.isOk)
  period
  steps

def failedSteps (r : Report) : List StepReport :=
  r.steps.filter fun s => !s.outcome.isOk && !s.outcome.isSkipped

def toData (r : Report) : Data :=
  .record
    [("name", .text r.name), ("version", .text r.version), ("mode", .text r.mode.name),
      ("ok", .bool r.ok), ("startedAt", .text r.period.startedAt.render),
      ("endedAt", .text r.period.endedAt.render), ("durationMs", .int r.period.durationMs),
      ("steps", .list (r.steps.map StepReport.toData))]

def summary (r : Report) : String :=
  s!"{r.name} mode={r.mode.name} ok={Data.boolName r.ok} steps={r.steps.length} " ++
    s!"duration={r.period.durationMs}ms"

def plain (r : Report) : String :=
  String.intercalate "\n" (r.summary :: r.steps.map (StepReport.line r.steps.length))

def render (r : Report) (json : Bool) : String := if json then Json.pretty r.toData else r.plain

end Report

end RoomAudio
