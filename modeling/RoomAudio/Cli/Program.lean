import RoomAudio.Cli.Arguments
import RoomAudio.Player.Application
import RoomAudio.Player.Execution
import RoomAudio.Routine.Source
import RoomAudio.Settings.Store

/-!
# The program

What the program does with a command line, as a function of the machine it runs on.

## Main definitions

* `Machine` — files, variables, standard input, and the programs that can be started.
* `Response` — what is written, the exit status, and the machine afterwards.
* `Program.run` — the response to a command line.
-/

namespace RoomAudio

structure Machine where
  files : Files
  vars : Settings.Variables
  stdin : List UInt8 := []
  processes : Processes := {}
  /-- The programs that control the player are there. -/
  installed : Bool := true
  now : Timestamp := ⟨0, 0⟩

structure Response where
  status : Nat := 0
  stdout : String := ""
  stderr : Option String := none
  misuse : Bool := false
  files : Files
  processes : Processes

namespace Program

inductive Error where
  | unreadable (source : String) (fault : FileFault)
  | invalidRoutine (problem : Problem)
  | settings (error : Settings.Error)
  | change (verb key : String) (error : Settings.Error)
  deriving DecidableEq, Repr

namespace Error

/-- The wording of an error, from the outermost context to the cause. -/
def causes : Error → List String
  | .unreadable source fault => [s!"failed to read routine from {source}", fault.message]
  | .invalidRoutine problem => ["invalid routine", problem.display]
  | .settings error => error.causes
  | .change verb key error => s!"failed to {verb} {key}" :: error.causes

/-- The exit status of an error. Only what is wrong with a routine has one of its own. -/
def status : Error → Nat
  | .invalidRoutine _ => 2
  | _ => 1

def line (e : Error) : String := "error: " ++ String.intercalate ": " e.causes

end Error

def stdinPath : String := "-"

def loadRoutine (m : Machine) (path : String) : Except Error Document := do
  let bytes ←
    if path = stdinPath then pure m.stdin
    else (m.files.read path).mapError (.unreadable path)
  (Document.parse bytes).mapError .invalidRoutine

def settingsPath (v : Settings.Variables) (given : Option String) : String :=
  match given with
  | some path => Files.expandHome v.home path
  | none => Settings.defaultPath v

def loadSettings (m : Machine) (given : Option String) : Except Error Store :=
  (Store.load m.files (settingsPath m.vars given)).mapError .settings

def write (m : Machine) (text : String) : Response :=
  { stdout := text, files := m.files, processes := m.processes }

def fail (m : Machine) (e : Error) : Response :=
  { status := e.status, stderr := some e.line, files := m.files, processes := m.processes }

/-- The response that writes a report. Its exit status tells whether everything went well. -/
def writeReport (m : Machine) (d : Document) (mode : Mode) (steps : List StepReport)
    (processes : Processes) (json : Bool) : Response :=
  let elapsed := processes.time - m.processes.time
  let report := Report.of d mode ⟨m.now, m.now.add elapsed, elapsed / 1000000⟩ steps
  { status := if report.ok then 0 else 1
    stdout := report.render json ++ "\n"
    files := m.files
    processes }

def preview (m : Machine) (d : Document) (mode : Mode) (settings : Defaults) (json : Bool) :
    Except Error Response := do
  let steps ← (d.preview mode settings).mapError .invalidRoutine
  return writeReport m d mode steps m.processes json

def carryOut (m : Machine) (d : Document) (settings : Settings) (json : Bool) :
    Except Error Response := do
  let application : Application :=
    { name := settings.application, installed := m.installed,
      deadline := some (m.processes.time + routineDeadline) }
  let (steps, session) ←
    (d.run settings.defaults settings.shortcuts application.environment
      { world := m.processes }).mapError .invalidRoutine
  return writeReport m d .run steps session.world json

def overview (s : Store) : String :=
  let value (key : SettingKey) : String :=
    key.name ++ " = " ++ (key.get s.settings.defaults).getD "(unset)" ++ "\n"
  s!"path = {s.path}\n" ++ String.join (SettingKey.all.map value) ++
    s!"airplay.app = {s.settings.application}\n"

def writeChange (m : Machine) (verb key : String)
    (change : Except Settings.Error Unit × Store × Files) : Response :=
  match change with
  | (.ok _, _, files) => { files, processes := m.processes }
  | (.error error, _, files) => { fail m (.change verb key error) with files }

def configure (m : Machine) (s : Store) : ConfigRequest → Except Error Response
  | .path => .ok (write m (s.path ++ "\n"))
  | .overview true => .ok (write m (s.settings.print ++ "\n"))
  | .overview false => .ok (write m (overview s))
  | .get key => do
    match ← (s.get key).mapError .settings with
    | some value => return write m (value ++ "\n")
    | none => return { write m "" with status := 1 }
  | .set key value => .ok (writeChange m "set" key (s.set m.files key value))
  | .unset key => .ok (writeChange m "unset" key (s.unset m.files key))

def printPreset (m : Machine) (preset : String) (name : Option String) (form : Notation) :
    Response :=
  match Preset.document? preset with
  | some d => write m ({ d with name := name.getD d.name }.print form)
  | none => { status := 1, stderr := some s!"error: unknown preset '{preset}'", files := m.files,
              processes := m.processes }

def act (m : Machine) (settingsFile : Option String) : Action → Except Error Response
  | .validate file json => do
    let d ← loadRoutine m file
    preview m d .validate {} json
  | .plan file json => do
    let d ← loadRoutine m file
    let s ← loadSettings m settingsFile
    preview m d .plan s.settings.defaults json
  | .run file dryRun json => do
    let d ← loadRoutine m file
    let s ← loadSettings m settingsFile
    if dryRun then preview m d .dryRun s.settings.defaults json
    else carryOut m d s.settings json
  | .init preset name form => return printPreset m preset name form
  | .config request => do
    let s ← loadSettings m settingsFile
    configure m s request

def usage : String :=
  "Usage: roomcast [--config <PATH>] <COMMAND>\n\n" ++
  "Commands:\n" ++
  "  validate --file <PATH> [--json]\n" ++
  "  plan --file <PATH> [--json]\n" ++
  "  run --file <PATH> [--dry-run] [--json]\n" ++
  "  init --preset <NAME> [--name <NAME>] [--json]\n" ++
  "  config path | show [--json] | get <KEY> | set <KEY> <VALUE> | unset <KEY>\n"

def run (m : Machine) (arguments : List String) : Response :=
  match Request.parse arguments with
  | none => { write m "" with status := 2, misuse := true }
  | some .help => write m usage
  | some .version => write m "roomcast 0.1.0\n"
  | some (.act settingsFile action) =>
    match act m settingsFile action with
    | .ok response => response
    | .error error => fail m error

end Program

end RoomAudio
