import RoomAudio.Cli.Program
import RoomAudio.Proofs.Refusal
import RoomAudio.Proofs.Routine.Preparation
import RoomAudio.Proofs.Routine.Printed
import RoomAudio.Proofs.Routine.Source

/-!
# The exit status

The commands that read a routine go through the same stages: they read the routine, open the
settings if they need them, and check the rules; then they print a report. What is wrong with the
routine gives one exit status and whatever else keeps them from printing a report another one. The
exit status of a report tells whether everything went well.

## Main definitions

* `Mode.action` — the command that belongs to a mode.
* `Program.openSettings`, `Program.entries` — the stages between the routine and its report.
* `Program.act_action` — all modes go through these stages.
* `RoutineAnswer` — what the program answers.
* `routine_commands_answer` — it answers like that.
-/

namespace RoomAudio

variable {σ : Type}

/-! ## Failed steps -/

def StepReport.hasFailed (report : StepReport) : Bool :=
  !report.outcome.isOk && !report.outcome.isSkipped

/-- At most one step of a run fails, since the steps after it are skipped. -/
theorem Environment.length_failed_runSteps (e : Environment σ) (shortcuts : Shortcuts)
    (steps : List ResolvedStep) (s : Session σ) :
    ((e.runSteps shortcuts steps s).1.filter StepReport.hasFailed).length =
      if (e.runSteps shortcuts steps s).1.all (·.outcome.isOk) then 0 else 1 := by
  induction steps generalizing s with
  | nil => rfl
  | cons step steps ih =>
    obtain ⟨r, -, -, -, outcome⟩ := e.runStep_ends shortcuts step s
    rw [runSteps]
    cases r with
    | ok u =>
      have ok : (e.runStep shortcuts step s).1.outcome.isOk = true := by
        rw [outcome]
        rfl
      simpa [ok, StepReport.hasFailed] using ih (e.runStep shortcuts step s).2
    | error failure =>
      have bad : (e.runStep shortcuts step s).1.outcome.isOk = false := by
        rw [outcome]
        rfl
      have failed : StepReport.hasFailed (e.runStep shortcuts step s).1 = true := by
        rw [StepReport.hasFailed, outcome]
        rfl
      have skipped : (steps.map skip).filter StepReport.hasFailed = [] := by
        simp [StepReport.hasFailed, skip, Outcome.isSkipped]
      simp [bad, failed, skipped]

/-- What is shown without a player went well. -/
theorem Document.all_ok_preview {d : Document} {mode : Mode} {settings : Defaults}
    {reports : List StepReport} (shown : d.preview mode settings = .ok reports) :
    reports.all (·.outcome.isOk) = true := by
  have planned {settings : Defaults} (h : d.planned settings = .ok reports) :
      reports.all (·.outcome.isOk) = true := by
    unfold planned at h
    cases prepared : d.prepare settings with
    | error problem =>
      rw [prepared] at h
      cases h
    | ok steps =>
      rw [prepared] at h
      cases h
      simp [StepReport.planned, Outcome.isOk]
  cases mode <;> exact planned shown

/-! ## Stages -/

def Mode.action (mode : Mode) (file : String) (json : Bool) : Action :=
  match mode with
  | .validate => .validate file json
  | .plan => .plan file json
  | .dryRun => .run file true json
  | .run => .run file false json

/-- The bytes of a routine, from a file or from the standard input. -/
def Machine.source (m : Machine) (file : String) : Except FileFault (List UInt8) :=
  if file = Program.stdinPath then .ok m.stdin else m.files.read file

namespace Program

/-- The settings of a mode. A check leaves them aside. -/
def openSettings (m : Machine) (settingsFile : Option String) (mode : Mode) :
    Except Error Settings :=
  match mode with
  | .validate => .ok {}
  | _ => (loadSettings m settingsFile).map (·.settings)

def player (m : Machine) (settings : Settings) : Application where
  name := settings.application
  installed := m.installed
  deadline := some (m.processes.time + routineDeadline)

/-- The entries of the report about a routine, and what has become of the programs. -/
def entries (m : Machine) (d : Document) (settings : Settings) (mode : Mode) :
    Except Problem (List StepReport × Processes) :=
  match mode with
  | .run =>
    (d.run settings.defaults settings.shortcuts (player m settings).environment
      { world := m.processes }).map fun (reports, session) => (reports, session.world)
  | mode => (d.preview mode settings.defaults).map fun reports => (reports, m.processes)

variable {m : Machine} {file : String} {bytes : List UInt8}

/-- A source that can be read leaves the document to decide. -/
theorem loadRoutine_of_source (readable : m.source file = .ok bytes) :
    loadRoutine m file = (Document.parse bytes).mapError .invalidRoutine := by
  unfold Machine.source at readable
  unfold loadRoutine
  split at readable
  · cases readable
    rw [if_pos ‹_›]
    rfl
  · rw [if_neg ‹_›, readable]
    rfl

/-- Reports about a checked routine, or says what is wrong with it. -/
def reportOn (m : Machine) (d : Document) (settings : Settings) (mode : Mode) (json : Bool) :
    Except Error Response := do
  let (reports, processes) ← (entries m d settings mode).mapError .invalidRoutine
  return writeReport m d mode reports processes json

theorem entries_of_ne {mode : Mode} (quiet : mode ≠ .run) (d : Document) (settings : Settings) :
    entries m d settings mode =
      (d.preview mode settings.defaults).map fun reports => (reports, m.processes) := by
  cases mode with
  | run => exact absurd rfl quiet
  | _ => rfl

/-- A routine that is not carried out is reported on in the same way. -/
theorem preview_eq_reportOn {mode : Mode} (quiet : mode ≠ .run) (d : Document)
    (settings : Settings) (json : Bool) :
    preview m d mode settings.defaults json = reportOn m d settings mode json := by
  rw [preview, reportOn, entries_of_ne quiet]
  cases d.preview mode settings.defaults <;> rfl

/-- A routine that is carried out is reported on like any other. -/
theorem carryOut_eq_reportOn (d : Document) (settings : Settings) (json : Bool) :
    carryOut m d settings json = reportOn m d settings .run json := by
  have same : carryOut m d settings json =
      ((d.run settings.defaults settings.shortcuts (player m settings).environment
        { world := m.processes }).mapError Error.invalidRoutine >>= fun (steps, session) =>
          pure (writeReport m d .run steps session.world json)) := rfl
  rw [same, reportOn, entries]
  cases d.run settings.defaults settings.shortcuts (player m settings).environment
    { world := m.processes } <;> rfl

/-- The commands that read a routine go through the same stages. -/
theorem act_action (readable : m.source file = .ok bytes) (settingsFile : Option String)
    (mode : Mode) (json : Bool) :
    act m settingsFile (mode.action file json) =
      (do
        let d ← (Document.parse bytes).mapError .invalidRoutine
        let settings ← openSettings m settingsFile mode
        reportOn m d settings mode json) := by
  rw [← loadRoutine_of_source readable]
  cases loaded : loadRoutine m file with
  | error e => cases mode <;> simp only [Mode.action, act, loaded] <;> rfl
  | ok d =>
    have quiet (mode : Mode) (ne : mode ≠ .run) := preview_eq_reportOn (m := m) ne d
    cases mode with
    | validate =>
      simp only [Mode.action, act, loaded]
      exact quiet .validate (by decide) {} json
    | plan =>
      simp only [Mode.action, act, loaded, openSettings]
      cases loadSettings m settingsFile with
      | error e => rfl
      | ok store => exact quiet .plan (by decide) store.settings json
    | dryRun =>
      simp only [Mode.action, act, loaded, openSettings]
      cases loadSettings m settingsFile with
      | error e => rfl
      | ok store => exact quiet .dryRun (by decide) store.settings json
    | run =>
      simp only [Mode.action, act, loaded, openSettings]
      cases loadSettings m settingsFile with
      | error e => rfl
      | ok store => exact carryOut_eq_reportOn d store.settings json

/-- Nothing but the rules keeps a routine from being reported on. -/
theorem entries_error_iff (d : Document) (settings : Settings) (mode : Mode) (problem : Problem) :
    entries m d settings mode = .error problem ↔ d.validate = .error problem := by
  cases mode with
  | run => rw [entries, map_eq_error_iff, d.run_error_iff]
  | _ => rw [entries_of_ne (by decide), map_eq_error_iff, d.preview_error_iff]

/-- A checked routine has entries in every mode. -/
theorem exists_entries {d : Document} (valid : d.validate = .ok ()) (m : Machine)
    (settings : Settings) (mode : Mode) :
    ∃ reports processes, entries m d settings mode = .ok (reports, processes) := by
  cases h : entries m d settings mode with
  | error problem =>
    rw [entries_error_iff, valid] at h
    cases h
  | ok shown => exact ⟨shown.1, shown.2, rfl⟩

/-- Without a player no program is started and no step fails. -/
theorem quiet_of_entries {mode : Mode} (quiet : mode ≠ .run) {d : Document} {settings : Settings}
    {reports : List StepReport} {processes : Processes}
    (h : entries m d settings mode = .ok (reports, processes)) :
    processes = m.processes ∧ reports.all (·.outcome.isOk) = true := by
  rw [entries_of_ne quiet] at h
  cases shown : d.preview mode settings.defaults with
  | error problem =>
    rw [shown] at h
    cases h
  | ok reports =>
    rw [shown] at h
    cases h
    exact ⟨rfl, Document.all_ok_preview shown⟩

/-- At most one step fails in any mode. -/
theorem length_failed_of_entries {d : Document} {settings : Settings} {mode : Mode}
    {reports : List StepReport} {processes : Processes}
    (h : entries m d settings mode = .ok (reports, processes)) :
    (reports.filter StepReport.hasFailed).length =
      if reports.all (·.outcome.isOk) then 0 else 1 := by
  by_cases run : mode = .run
  · subst run
    cases prepared : d.prepare settings.defaults with
    | error problem => simp [entries, Document.run, prepared, Except.map] at h
    | ok steps =>
      rw [entries, Document.run_of_prepare prepared] at h
      cases h
      exact Environment.length_failed_runSteps _ _ _ _
  · have ok := (quiet_of_entries run h).2
    rw [if_pos ok, List.length_eq_zero_iff, List.filter_eq_nil_iff]
    intro report mem
    simp [StepReport.hasFailed, List.all_eq_true.mp ok report mem]

/-- What is reported are the entries of the mode. -/
theorem entries_listed {d : Document} {settings : Settings} {mode : Mode}
    {reports : List StepReport} {processes : Processes}
    (h : entries m d settings mode = .ok (reports, processes)) : d.Entries settings mode reports := by
  by_cases run : mode = .run
  · subst run
    obtain ⟨⟨reports', session⟩, found, same⟩ := (map_eq_ok_iff _ _ _).mp h
    cases same
    exact .carriedOut found
  · rw [entries_of_ne run] at h
    obtain ⟨reports', found, same⟩ := (map_eq_ok_iff _ _ _).mp h
    cases same
    exact .previewed found

theorem reportOn_of_entries {d : Document} {settings : Settings} {mode : Mode}
    {reports : List StepReport} {processes : Processes}
    (h : entries m d settings mode = .ok (reports, processes)) (json : Bool) :
    reportOn m d settings mode json = .ok (writeReport m d mode reports processes json) := by
  rw [reportOn, h]
  rfl

/-- A routine that breaks a rule is refused with that problem. -/
theorem reportOn_of_validate {d : Document} {problem : Problem}
    (h : d.validate = .error problem) (settings : Settings) (mode : Mode) (json : Bool) :
    reportOn m d settings mode json = .error (.invalidRoutine problem) := by
  rw [reportOn, (entries_error_iff d settings mode problem).mpr h]
  rfl

end Program

/-! ## Answers -/

/-- The program stops with an exit status before it has printed or started anything. -/
structure Response.IsRefusal (r : Response) (m : Machine) (status : Nat) : Prop where
  status : r.status = status
  stdout : r.stdout = ""
  processes : r.processes = m.processes

/-- The program prints a line feed behind a text that says what a report says, and its exit status
tells whether the report is good or has exactly one failed step. -/
structure Response.Prints (r : Response) (report : Report) (json : Bool) : Prop where
  stdout : ∃ text, r.stdout = text ++ "\n" ∧ report.IsSaidBy json text
  good : r.status = 0 ↔ report.ok = true
  bad : r.status = 1 ↔ report.failedSteps.length = 1

/-- What the program answers to a command that reads a routine. -/
structure RoutineAnswer (m : Machine) (settingsFile : Option String) (mode : Mode) (json : Bool)
    (bytes : List UInt8) (r : Response) : Prop where
  /-- The bytes are no routine. -/
  malformed : ∀ problem, Document.parse bytes = .error problem → r.IsRefusal m 2
  /-- The routine can be read, but not the settings it is to be reported on with. -/
  unopened : ∀ d error, Document.parse bytes = .ok d →
    Program.openSettings m settingsFile mode = .error error → r.IsRefusal m 1
  /-- The routine breaks a rule. -/
  invalid : ∀ d settings problem, Document.parse bytes = .ok d →
    Program.openSettings m settingsFile mode = .ok settings →
    d.validate = .error problem → r.IsRefusal m 2
  /-- Nothing is wrong, so the entries of the mode are printed. -/
  printed : ∀ d settings, Document.parse bytes = .ok d →
    Program.openSettings m settingsFile mode = .ok settings → d.validate = .ok () →
    ∃ period reports, Program.entries m d settings mode = .ok (reports, r.processes) ∧
      r.Prints (.of d mode period reports) json
  /-- Only carrying out a routine starts programs, and only that can end badly after printing. -/
  quiet : mode ≠ .run → r.processes = m.processes ∧ (r.stdout ≠ "" → r.status ≠ 1)
  files : r.files = m.files

/-- After a refusal nothing was started, and the status does not speak of failed steps once
something was printed. -/
theorem Response.IsRefusal.quiet {r : Response} {m : Machine} {status : Nat}
    (h : r.IsRefusal m status) : r.processes = m.processes ∧ (r.stdout ≠ "" → r.status ≠ 1) :=
  ⟨h.processes, fun printed => absurd h.stdout printed⟩

namespace Program

variable {m : Machine} {settingsFile : Option String} {mode : Mode} {json : Bool} {file : String}
  {bytes : List UInt8} {arguments : List String}

/-- An error ends the program with the status of this error. -/
theorem fail_isRefusal (e : Error) : (fail m e).IsRefusal m e.status := ⟨rfl, rfl, rfl⟩

/-- What is printed says what was reported. -/
theorem writeReport_prints (json : Bool) {d : Document} {settings : Settings}
    {reports : List StepReport} {processes : Processes} (readable : d.Readable)
    (h : entries m d settings mode = .ok (reports, processes)) :
    ∃ period, (writeReport m d mode reports processes json).Prints
      (.of d mode period reports) json := by
  have failed := length_failed_of_entries h
  have steps (e : StepReport) (mem : e ∈ reports) : e.step.step.Readable := by
    obtain ⟨i, inside, rfl⟩ := List.getElem_of_mem mem
    obtain ⟨-, step, -⟩ := (entries_listed h).steps.2 i _ (List.getElem?_eq_getElem inside)
    exact readable.steps _ (List.mem_of_getElem? step)
  have status : (writeReport m d mode reports processes json).status =
      if reports.all (·.outcome.isOk) then 0 else 1 := rfl
  refine ⟨_, ⟨_, rfl, Report.isSaidBy_render steps json⟩, ?_, ?_⟩
  · rw [status, Report.of]
    simp
  · rw [status, ← failed]
    rfl

/-- The response of a command, or what is said about its error. -/
def answer (m : Machine) : Except Error Response → Response
  | .ok response => response
  | .error error => fail m error

/-- The stages answer to a command that reads a routine. -/
theorem run_of_accepted
    (accepted : Request.parse arguments = some (.act settingsFile (mode.action file json)))
    (readable : m.source file = .ok bytes) :
    run m arguments = answer m (do
      let d ← (Document.parse bytes).mapError .invalidRoutine
      let settings ← openSettings m settingsFile mode
      reportOn m d settings mode json) := by
  have acted : run m arguments = answer m (act m settingsFile (mode.action file json)) := by
    unfold run
    rw [accepted]
    rfl
  rw [acted, act_action readable]

/-- Settings that cannot be opened are not the fault of a routine. -/
theorem status_of_openSettings {error : Error}
    (h : openSettings m settingsFile mode = .error error) : error.status = 1 := by
  have loaded (h : (loadSettings m settingsFile).map (·.settings) = .error error) :
      error.status = 1 := by
    rw [map_eq_error_iff, loadSettings, mapError_eq_error_iff] at h
    obtain ⟨fault, -, rfl⟩ := h
    rfl
  cases mode with
  | validate => cases h
  | _ => exact loaded h

end Program

namespace RoutineAnswer

variable {m : Machine} {settingsFile : Option String} {mode : Mode} {json : Bool}
  {bytes : List UInt8} {d : Document} {settings : Settings}

theorem of_malformed {problem : Problem} (parsed : Document.parse bytes = .error problem) :
    RoutineAnswer m settingsFile mode json bytes (Program.fail m (.invalidRoutine problem)) := by
  have refused := Program.fail_isRefusal (m := m) (.invalidRoutine problem)
  exact ⟨fun _ _ => refused, by simp [parsed], by simp [parsed], by simp [parsed],
    fun _ => refused.quiet, rfl⟩

theorem of_unopened {error : Program.Error} (parsed : Document.parse bytes = .ok d)
    (opened : Program.openSettings m settingsFile mode = .error error) :
    RoutineAnswer m settingsFile mode json bytes (Program.fail m error) := by
  have refused := Program.fail_isRefusal (m := m) error
  rw [Program.status_of_openSettings opened] at refused
  exact ⟨by simp [parsed], fun _ _ _ _ => refused, by simp [opened], by simp [opened],
    fun _ => refused.quiet, rfl⟩

theorem of_invalid {problem : Problem} (parsed : Document.parse bytes = .ok d)
    (opened : Program.openSettings m settingsFile mode = .ok settings)
    (invalid : d.validate = .error problem) :
    RoutineAnswer m settingsFile mode json bytes (Program.fail m (.invalidRoutine problem)) := by
  have refused := Program.fail_isRefusal (m := m) (.invalidRoutine problem)
  refine ⟨by simp [parsed], by simp [opened], fun _ _ _ _ _ _ => refused, ?_,
    fun _ => refused.quiet, rfl⟩
  simp only [parsed]
  rintro _ _ ⟨⟩ - valid
  rw [invalid] at valid
  cases valid

theorem of_valid {reports : List StepReport} {processes : Processes}
    (parsed : Document.parse bytes = .ok d)
    (opened : Program.openSettings m settingsFile mode = .ok settings)
    (valid : d.validate = .ok ())
    (shown : Program.entries m d settings mode = .ok (reports, processes)) :
    RoutineAnswer m settingsFile mode json bytes
      (Program.writeReport m d mode reports processes json) := by
  obtain ⟨period, prints⟩ :=
    Program.writeReport_prints json (Document.readable_of_parse parsed) shown
  refine ⟨by simp [parsed], by simp [opened], ?_, ?_, fun quiet => ?_, rfl⟩
  · simp only [parsed]
    rintro _ _ _ ⟨⟩ - invalid
    rw [valid] at invalid
    cases invalid
  · simp only [parsed, opened]
    rintro _ _ ⟨⟩ ⟨⟩ -
    exact ⟨period, reports, shown, prints⟩
  · obtain ⟨unchanged, ok⟩ := Program.quiet_of_entries quiet shown
    have status := prints.good.mpr ok
    exact ⟨unchanged, fun _ bad => absurd (status.symm.trans bad) (by decide)⟩

end RoutineAnswer

/-- The commands that read a routine answer as `RoutineAnswer` says, whatever the bytes of the
routine and the settings are and whatever becomes of the programs that are started. -/
theorem routine_commands_answer (m : Machine) {arguments : List String}
    {settingsFile : Option String} {mode : Mode} {file : String} {json : Bool} {bytes : List UInt8}
    (accepted : Request.parse arguments = some (.act settingsFile (mode.action file json)))
    (readable : m.source file = .ok bytes) :
    RoutineAnswer m settingsFile mode json bytes (Program.run m arguments) := by
  rw [Program.run_of_accepted accepted readable]
  cases parsed : Document.parse bytes with
  | error problem => exact .of_malformed parsed
  | ok d =>
    cases opened : Program.openSettings m settingsFile mode with
    | error error => exact .of_unopened parsed opened
    | ok settings =>
      change RoutineAnswer m settingsFile mode json bytes
        (Program.answer m (Program.reportOn m d settings mode json))
      cases valid : d.validate with
      | error problem =>
        rw [Program.reportOn_of_validate valid]
        exact .of_invalid parsed opened valid
      | ok u =>
        obtain ⟨reports, processes, shown⟩ := Program.exists_entries valid m settings mode
        rw [Program.reportOn_of_entries shown]
        exact .of_valid parsed opened valid shown

/-- A signal ends the program that is to stop the player, so the only step of the routine fails. -/
theorem routine_commands_answer_stop :
    let d : Document := { version := "1", name := "quiet", steps := [.transport "stop"] }
    let m : Machine :=
      { files := {}, vars := { home := "/home" }, stdin := (d.print .json).toUTF8.toList,
        processes := { next := [.signal "9 (SIGKILL)" [] [] 120000000] } }
    Request.parse ["run", "-f", "-"] = some (.act none (Mode.run.action "-" false)) ∧
    m.source "-" = .ok m.stdin ∧
    ∃ report, (Program.run m ["run", "-f", "-"]).Prints report false ∧
      report.failedSteps.length = 1 := by
  intro d m
  have accepted : Request.parse ["run", "-f", "-"] =
      some (.act none (Mode.run.action "-" false)) := by decide +kernel
  have readable : m.source "-" = .ok m.stdin := rfl
  have parsed : Document.parse m.stdin = .ok d := toOption_eq_some_iff.mp (by decide +kernel)
  have opened : Program.openSettings m none .run = .ok {} :=
    toOption_eq_some_iff.mp (by decide +kernel)
  have valid : d.validate = .ok () := toOption_eq_some_iff.mp (by decide +kernel)
  have status : (Program.run m ["run", "-f", "-"]).status = 1 := by decide +kernel
  obtain ⟨_, _, -, prints⟩ :=
    (routine_commands_answer m accepted readable).printed d {} parsed opened valid
  exact ⟨accepted, readable, _, prints, prints.bad.mp status⟩

end RoomAudio
