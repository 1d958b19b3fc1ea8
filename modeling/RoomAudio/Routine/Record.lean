import RoomAudio.Data
import RoomAudio.Format
import RoomAudio.Routine.Basic

/-!
# Routines as records

How routines are written as plain data and read from the trees of a data format. A step is a flat
record whose field `type` says which other fields belong to it; fields of other kinds of step are
read and dropped.

## Main definitions

* `Step.Record` — the flat record of a step, with `Step.ofRecord` and `Step.toRecord`.
* `Document.toData`, `Defaults.toData`, `Step.toData` — writing.
* `Document.read`, `Defaults.read`, `Step.read` — reading.
-/

namespace RoomAudio

/-- The flat record of a step. -/
structure Step.Record where
  kind : String := ""
  rooms : Option (List String) := none
  query : Option String := none
  playlistId : Option String := none
  value : Option Int := none
  state : Option String := none
  timeout : Option String := none
  action : Option String := none
  deriving DecidableEq, Repr

namespace Step

def ofRecord (r : Record) : Step :=
  if r.kind = "out.set" then .outSet (r.rooms.getD [])
  else if r.kind = "play" then .play r.query r.playlistId
  else if r.kind = "volume.set" then .volumeSet r.value r.rooms
  else if r.kind = "wait" then .wait (r.state.getD "") (r.timeout.getD "")
  else if r.kind = "transport" then .transport (r.action.getD "")
  else .unsupported r.kind

def toRecord : Step → Record
  | .outSet rooms => { kind := "out.set", rooms := some rooms }
  | .play query playlistId => { kind := "play", query, playlistId }
  | .volumeSet value rooms => { kind := "volume.set", value, rooms }
  | .wait state timeout => { kind := "wait", state := some state, timeout := some timeout }
  | .transport action => { kind := "transport", action := some action }
  | .unsupported kind => { kind }

def Record.toData (r : Record) : Data :=
  .record <| ("type", .text r.kind) ::
    Data.optionalField "rooms" r.rooms Data.texts ++
    Data.optionalField "query" r.query .text ++
    Data.optionalField "playlistId" r.playlistId .text ++
    Data.optionalField "value" r.value .int ++
    Data.optionalField "state" r.state .text ++
    Data.optionalField "timeout" r.timeout .text ++
    Data.optionalField "action" r.action .text

def toData (s : Step) : Data := s.toRecord.toData

end Step

/-- Defaults as plain data. Fields without a value are left out. -/
def Defaults.toData (d : Defaults) : Data :=
  .record <|
    (if d.backend.isEmpty then [] else [("backend", .text d.backend)]) ++
    (if d.rooms.isEmpty then [] else [("rooms", Data.texts d.rooms)]) ++
    Data.optionalField "volume" d.volume .int ++
    Data.optionalField "shuffle" d.shuffle .bool

def Document.toData (d : Document) : Data :=
  .record <| ("version", .text d.version) :: ("name", .text d.name) ::
    Data.optionalField "defaults" d.defaults Defaults.toData ++
    [("steps", .list (d.steps.map Step.toData))]

section Reading

variable {ν : Type} {m : Type → Type} [Monad m] [MonadExceptOf Fault m]

/-- The fields of `Step.Record` read so far. -/
structure Step.Draft where
  kind : Option String := none
  rooms : Option (Option (List String)) := none
  query : Option (Option String) := none
  playlistId : Option (Option String) := none
  value : Option (Option Int) := none
  state : Option (Option String) := none
  timeout : Option (Option String) := none
  action : Option (Option String) := none

namespace Step

def Draft.toRecord (d : Draft) : Record where
  kind := d.kind.getD ""
  rooms := d.rooms.join
  query := d.query.join
  playlistId := d.playlistId.join
  value := d.value.join
  state := d.state.join
  timeout := d.timeout.join
  action := d.action.join

def fieldNames : List String :=
  ["type", "rooms", "query", "playlistId", "value", "state", "timeout", "action"]

def readField (F : Format ν m) (d : Draft) (name : String) (node : ν) : m Draft := do
  if name = "type" then return { d with kind := ← Format.once d.kind (F.text node) }
  else if name = "rooms" then
    return { d with rooms := ← Format.once d.rooms (F.option (F.list F.text) node) }
  else if name = "query" then
    return { d with query := ← Format.once d.query (F.option F.text node) }
  else if name = "playlistId" then
    return { d with playlistId := ← Format.once d.playlistId (F.option F.text node) }
  else if name = "value" then
    return { d with value := ← Format.once d.value (F.option F.int node) }
  else if name = "state" then
    return { d with state := ← Format.once d.state (F.option F.text node) }
  else if name = "timeout" then
    return { d with timeout := ← Format.once d.timeout (F.option F.text node) }
  else if name = "action" then
    return { d with action := ← Format.once d.action (F.option F.text node) }
  else do
    F.skip node
    return d

def read (F : Format ν m) (node : ν) : m Step := do
  let draft ← F.fields fieldNames (readField F) {} node
  return ofRecord draft.toRecord

end Step

structure Defaults.Draft where
  backend : Option String := none
  rooms : Option (List String) := none
  volume : Option (Option Int) := none
  shuffle : Option (Option Bool) := none

namespace Defaults

def Draft.toDefaults (d : Draft) : Defaults where
  backend := d.backend.getD ""
  rooms := d.rooms.getD []
  volume := d.volume.join
  shuffle := d.shuffle.join

def fieldNames : List String := ["backend", "rooms", "volume", "shuffle"]

def readField (F : Format ν m) (d : Draft) (name : String) (node : ν) : m Draft := do
  if name = "backend" then return { d with backend := ← Format.once d.backend (F.text node) }
  else if name = "rooms" then
    return { d with rooms := ← Format.once d.rooms (F.list F.text node) }
  else if name = "volume" then
    return { d with volume := ← Format.once d.volume (F.option F.int node) }
  else if name = "shuffle" then
    return { d with shuffle := ← Format.once d.shuffle (F.option F.bool node) }
  else do
    F.skip node
    return d

def read (F : Format ν m) (node : ν) : m Defaults := do
  let draft ← F.fields fieldNames (readField F) {} node
  return draft.toDefaults

end Defaults

structure Document.Draft where
  version : Option String := none
  name : Option String := none
  defaults : Option (Option Defaults) := none
  steps : Option (List Step) := none

namespace Document

def Draft.toDocument (d : Draft) : Document where
  version := d.version.getD ""
  name := d.name.getD ""
  defaults := d.defaults.join
  steps := d.steps.getD []

def fieldNames : List String := ["version", "name", "defaults", "steps"]

def readField (F : Format ν m) (d : Draft) (name : String) (node : ν) : m Draft := do
  if name = "version" then return { d with version := ← Format.once d.version (F.version node) }
  else if name = "name" then return { d with name := ← Format.once d.name (F.text node) }
  else if name = "defaults" then
    return { d with defaults := ← Format.once d.defaults (F.option (Defaults.read F) node) }
  else if name = "steps" then
    return { d with steps := ← Format.once d.steps (F.list (Step.read F) node) }
  else do
    F.skip node
    return d

def read (F : Format ν m) (node : ν) : m Document := do
  let draft ← F.fields fieldNames (readField F) {} node
  return draft.toDocument

end Document

end Reading

end RoomAudio
