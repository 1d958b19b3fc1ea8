import RoomAudio.Files
import RoomAudio.Json.Format
import RoomAudio.Json.Printer
import RoomAudio.Routine.Record
import RoomAudio.Routine.Validation
import RoomAudio.Shortcuts

/-!
# Settings

The settings that routines are run with: defaults for all routines, the shortcuts of the native
backend, and the application that is the player.

## Main definitions

* `Settings` — the settings, with `Settings.read` and `Settings.toData`.
* `SettingKey` — the names under which the defaults are shown and changed.
* `Settings.Error` — why settings cannot be loaded or changed.
* `SettingKey.get`, `SettingKey.set`, `SettingKey.unset` — single values as texts.
-/

namespace RoomAudio

structure Settings where
  /-- What routines leave open. -/
  defaults : Defaults := {}
  shortcuts : Shortcuts := {}
  application : String := "Music"
  deriving DecidableEq, Repr

namespace Settings

/-- Settings as plain data. Defaults without any value are left out. -/
def toData (s : Settings) : Data :=
  .record <|
    (if s.defaults.isEmpty then [] else [("defaults", s.defaults.toData)]) ++
    [("native", s.shortcuts.toData), ("airplay", .record [("app", .text s.application)])]

section Reading

variable {ν : Type} {m : Type → Type} [Monad m] [MonadExceptOf Fault m]

def readOption (F : Format ν m) (application : Option String) (name : String) (node : ν) :
    m (Option String) :=
  if name = "app" then Format.once application (F.text node)
  else do
    F.skip node
    return application

def readApplication (F : Format ν m) (node : ν) : m String := do
  return (← F.fields ["app"] (readOption F) none node).getD "Music"

structure Draft where
  defaults : Option Defaults := none
  shortcuts : Option Shortcuts := none
  application : Option String := none

def Draft.toSettings (d : Draft) : Settings where
  defaults := d.defaults.getD {}
  shortcuts := d.shortcuts.getD {}
  application := d.application.getD "Music"

def fieldNames : List String := ["defaults", "native", "airplay"]

def readField (F : Format ν m) (d : Draft) (name : String) (node : ν) : m Draft := do
  if name = "defaults" then
    return { d with defaults := ← Format.once d.defaults (Defaults.read F node) }
  else if name = "native" then
    return { d with shortcuts := ← Format.once d.shortcuts (Shortcuts.read F node) }
  else if name = "airplay" then
    return { d with application := ← Format.once d.application (readApplication F node) }
  else do
    F.skip node
    return d

def read (F : Format ν m) (node : ν) : m Settings := do
  let draft ← F.fields fieldNames (readField F) {} node
  return draft.toSettings

end Reading

def decode (text : List Char) : Except Fault Settings := Json.decode (read Json.format) text

def checkDefaults (d : Defaults) : Except Problem Unit := d.validate [.field "defaults"]

def withoutInvalid (s : Settings) : Settings :=
  match checkDefaults s.defaults with
  | .ok _ => s
  | .error _ => { s with defaults := {} }

end Settings

inductive SettingKey where
  | backend | rooms | volume | shuffle
  deriving DecidableEq, Repr

namespace SettingKey

def all : List SettingKey := [backend, rooms, volume, shuffle]

def shortName : SettingKey → String
  | .backend => "backend"
  | .rooms => "rooms"
  | .volume => "volume"
  | .shuffle => "shuffle"

def name (k : SettingKey) : String := "defaults." ++ k.shortName

end SettingKey

inductive Settings.Error where
  | file (fault : FileFault)
  | unknownKey (name : String)
  | notInteger (key : String)
  | notBool (key : String)
  | invalid (problem : Problem)
  deriving DecidableEq, Repr

namespace Settings.Error

def message : Error → String
  | .file _ => "settings I/O error"
  | .unknownKey name =>
    let names := String.intercalate ", " (SettingKey.all.map SettingKey.name)
    s!"unknown settings key '{name}' (expected one of: {names})"
  | .notInteger key => s!"invalid value for {key}: expected an integer"
  | .notBool key => s!"invalid value for {key}: expected true or false"
  | .invalid _ => "invalid settings"

def cause? : Error → Option String
  | .file fault => some fault.message
  | .invalid problem => some problem.display
  | _ => none

def causes (e : Error) : List String := e.message :: e.cause?.toList

end Settings.Error

namespace SettingKey

/-- The key of a name or of its last part; blank characters around it do not matter. -/
def ofName (raw : String) : Except Settings.Error SettingKey :=
  let name := Text.trim raw
  match all.find? fun k => k.name = name || k.shortName = name with
  | some key => .ok key
  | none => .error (.unknownKey name)

def get (d : Defaults) : SettingKey → Option String
  | .backend => if d.backend.isEmpty then none else some d.backend
  | .rooms =>
    let rooms := String.intercalate "," d.rooms
    if rooms.isEmpty then none else some rooms
  | .volume => d.volume.map fun v => String.ofList (Data.decimal v)
  | .shuffle => d.shuffle.map Data.boolName

def roomsOf (raw : String) : List String :=
  ((Text.splitOn (· == ',') raw.toList).map fun l => String.ofList (Text.trimChars l)).filter
    (!·.isEmpty)

def boolOf? (s : String) : Option Bool :=
  if s = "true" then some true else if s = "false" then some false else none

/-- Gives a key the value that a text stands for. The key is called `name` when the text does not
stand for a value. -/
def set (name raw : String) (d : Defaults) : SettingKey → Except Settings.Error Defaults
  | .backend => .ok { d with backend := Text.trim raw }
  | .rooms => .ok { d with rooms := roomsOf raw }
  | .volume =>
    match Text.int64? (Text.trimChars raw.toList) with
    | some v => .ok { d with volume := some v }
    | none => .error (.notInteger name)
  | .shuffle =>
    match boolOf? (Text.trim raw) with
    | some b => .ok { d with shuffle := some b }
    | none => .error (.notBool name)

def unset (d : Defaults) : SettingKey → Defaults
  | .backend => { d with backend := "" }
  | .rooms => { d with rooms := [] }
  | .volume => { d with volume := none }
  | .shuffle => { d with shuffle := none }

end SettingKey

end RoomAudio
