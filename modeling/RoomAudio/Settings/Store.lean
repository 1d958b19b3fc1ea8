import RoomAudio.Settings.Basic
import RoomAudio.Text.Utf8

/-!
# The settings file

Settings that are kept in a file. A file that is missing or holds no settings stands for the
settings that everything starts with, and defaults that break a rule are dropped. Every change is
written at once; a change that cannot be written is still made in the store.

## Main definitions

* `Store` — settings and the file they belong to.
* `Store.load`, `Store.save` — reading and writing the file.
* `Store.get`, `Store.set`, `Store.unset` — the values of single keys.
* `Settings.defaultPath` — the place of the file when nobody names one.
-/

namespace RoomAudio

namespace Settings

def ofText (text : List Char) : Settings :=
  match decode text with
  | .ok s => s.withoutInvalid
  | .error _ => {}

def load (files : Files) (path : String) : Except Error Settings :=
  match files.read path with
  | .ok bytes =>
    match Text.Utf8.decode bytes with
    | .ok text => .ok (ofText text)
    | .error _ => .error (.file .notText)
  | .error .notFound => .ok {}
  | .error fault => .error (.file fault)

def print (s : Settings) : String := Json.pretty s.toData

/-- The variables that have a say in where settings are kept. -/
structure Variables where
  home : String
  /-- The settings file itself. -/
  settingsFile : Option String := none
  /-- The directory of all settings. -/
  settingsDirectory : Option String := none

def defaultPath (v : Variables) : String :=
  match v.settingsFile.filter (!Text.blank ·) with
  | some path => Files.expandHome v.home path
  | none =>
    let directory :=
      (v.settingsDirectory.filter Files.isAbsolute).getD (Files.join v.home ".config")
    Files.join (Files.join directory "roomcast") "config.json"

end Settings

structure Store where
  path : String
  settings : Settings
  deriving DecidableEq, Repr

namespace Store

def load (files : Files) (path : String) : Except Settings.Error Store :=
  (Settings.load files path).map fun settings => { path, settings }

def get (s : Store) (key : String) : Except Settings.Error (Option String) :=
  (SettingKey.ofName key).map fun key => key.get s.settings.defaults

def save (s : Store) (files : Files) : Except Settings.Error Unit × Files :=
  let (result, files) := files.save s.path (Text.Utf8.encode s.settings.print.toList)
  (result.mapError .file, files)

def withDefaults (s : Store) (defaults : Defaults) : Store :=
  { s with settings := { s.settings with defaults } }

def changed (s : Store) (key value : String) : Except Settings.Error Defaults := do
  let defaults ← (← SettingKey.ofName key).set (Text.trim key) value s.settings.defaults
  (Settings.checkDefaults defaults).mapError .invalid
  return defaults

def commit (s : Store) (files : Files) (defaults : Defaults) :
    Except Settings.Error Unit × Store × Files :=
  let s := s.withDefaults defaults
  let (result, files) := s.save files
  (result, s, files)

def set (s : Store) (files : Files) (key value : String) :
    Except Settings.Error Unit × Store × Files :=
  match s.changed key value with
  | .error error => (.error error, s, files)
  | .ok defaults => s.commit files defaults

def unset (s : Store) (files : Files) (key : String) :
    Except Settings.Error Unit × Store × Files :=
  match SettingKey.ofName key with
  | .error error => (.error error, s, files)
  | .ok key => s.commit files (key.unset s.settings.defaults)

end Store

end RoomAudio
