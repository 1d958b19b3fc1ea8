import RoomAudio.Player.Perform
import RoomAudio.Routine.Report

/-!
# Running a routine

The steps are carried out one after the other. The first one that fails ends the run; the steps
after it are skipped and nothing is taken back.

## Main definitions

* `Document.prepare` — the checked steps of a routine with their parameters.
* `Environment.runStep`, `Environment.runSteps` — carrying out steps.
* `Document.preview`, `Document.run` — the entries of the report.
-/

namespace RoomAudio

variable {σ : Type}

namespace Environment

def elapsedMs (e : Environment σ) (before after : σ) : Nat :=
  (e.time after - e.time before) / 1000000

def outcomeOf : Except Failure Unit → Outcome
  | .ok _ => .succeeded
  | .error failure => .failed failure.message

def runStep (e : Environment σ) (shortcuts : Shortcuts) (step : ResolvedStep) (s : Session σ) :
    StepReport × Session σ :=
  match e.checkSignal s with
  | (.error failure, s) => ({ step, outcome := outcomeOf (.error failure) }, s)
  | (.ok _, s) =>
    let begun := e.look s
    let (result, s) := step.parameters.perform e shortcuts begun
    let ended := e.look s
    ({ step, outcome := outcomeOf result, durationMs := e.elapsedMs begun.world ended.world },
      ended)

/-- The entry of a step that comes after a failure. -/
def skip (step : ResolvedStep) : StepReport := { step, outcome := .skipped }

/-- Carries out steps up to the first one that fails, and skips the others. -/
def runSteps (e : Environment σ) (shortcuts : Shortcuts) :
    List ResolvedStep → Session σ → List StepReport × Session σ
  | [], s => ([], s)
  | step :: steps, s =>
    let (report, s) := e.runStep shortcuts step s
    if report.outcome.isOk then
      let (reports, s) := e.runSteps shortcuts steps s
      (report :: reports, s)
    else (report :: steps.map skip, s)

end Environment

namespace Document

/-- The steps of a routine with their parameters, once all rules have been checked. -/
def prepare (d : Document) (settings : Defaults) : Except Problem (List ResolvedStep) := do
  d.validate
  resolveSteps (Defaults.resolve d.defaults settings) d.steps

/-- The entries for the steps of a routine that is not carried out. -/
def planned (d : Document) (settings : Defaults) : Except Problem (List StepReport) :=
  (d.prepare settings).map (·.map StepReport.planned)

/-- The entries that a mode without a player reports. The check of a routine leaves the settings
aside. -/
def preview (d : Document) (mode : Mode) (settings : Defaults) :
    Except Problem (List StepReport) :=
  match mode with
  | .validate => d.planned {}
  | _ => d.planned settings

def run (d : Document) (settings : Defaults) (shortcuts : Shortcuts) (e : Environment σ)
    (s : Session σ) : Except Problem (List StepReport × Session σ) :=
  (d.prepare settings).map fun steps => e.runSteps shortcuts steps s

end Document

end RoomAudio
