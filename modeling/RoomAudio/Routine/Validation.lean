import RoomAudio.Routine.Basic
import RoomAudio.Routine.Problem

/-!
# Validation

The rules that a routine has to keep. They are checked in the order of the document and the first
one that is broken is reported.

## Main definitions

* `parseWaitTimeout` — the timeout of a `wait` step in nanoseconds.
* `Defaults.validate` — the rules for defaults.
* `Step.validate` — the rules for one step.
* `Document.validate` — the rules for a routine.
-/

namespace RoomAudio

def routineVersion : String := "1"

def minWaitTimeout : Nat := 1000000000

def maxWaitTimeout : Nat := 600000000000

def maxVolume : Nat := 100

def parseWaitTimeout (raw : String) : Except TimeoutError Nat :=
  match Duration.parse raw with
  | .error error => .error (.duration error)
  | .ok nanos =>
    if nanos < minWaitTimeout || maxWaitTimeout < nanos then .error (.outOfBounds (Text.trim raw))
    else .ok nanos

def checkVolume (path : Path) (volume : Int) : Except Problem Unit :=
  if 0 ≤ volume ∧ volume ≤ maxVolume then .ok () else .error ⟨path, .volumeRange volume⟩

def checkRooms (path : Path) (rooms : List String) : Except Problem Unit :=
  match rooms.findIdx? Text.blank with
  | some i => .error ⟨path ++ [.index i], .blankRoom⟩
  | none => .ok ()

def isGiven : Option String → Bool
  | some s => !Text.blank s
  | none => false

def Defaults.validate (path : Path) (d : Defaults) : Except Problem Unit := do
  if !Text.blank d.backend && (Backend.ofName? d.backend).isNone then
    throw ⟨path ++ [.field "backend"], .unknownBackend d.backend⟩
  match d.volume with
  | some volume => checkVolume (path ++ [.field "volume"]) volume
  | none => pure ()
  checkRooms (path ++ [.field "rooms"]) d.rooms

def Step.validate (path : Path) : Step → Except Problem Unit
  | .outSet rooms =>
    if rooms.isEmpty then .error ⟨path ++ [.field "rooms"], .noRooms⟩
    else checkRooms (path ++ [.field "rooms"]) rooms
  | .play query playlistId =>
    match isGiven query, isGiven playlistId with
    | true, false => .ok ()
    | false, true => .ok ()
    | false, false => .error ⟨path, .nothingToPlay⟩
    | true, true => .error ⟨path, .twoThingsToPlay⟩
  | .volumeSet none _ => .error ⟨path ++ [.field "value"], .missing⟩
  | .volumeSet (some value) rooms => do
    checkVolume (path ++ [.field "value"]) value
    match rooms with
    | some rooms => checkRooms (path ++ [.field "rooms"]) rooms
    | none => pure ()
  | .wait state timeout =>
    if (PlaybackState.ofName? state).isNone then
      .error ⟨path ++ [.field "state"], .unknownState state⟩
    else
      match parseWaitTimeout timeout with
      | .error error => .error ⟨path ++ [.field "timeout"], .timeout error⟩
      | .ok _ => .ok ()
  | .transport action =>
    if (TransportAction.ofName? action).isNone then
      .error ⟨path ++ [.field "action"], .unknownAction action⟩
    else .ok ()
  | .unsupported kind =>
    .error ⟨path ++ [.field "type"], if Text.blank kind then .missing else .unsupportedKind kind⟩

def stepPath (i : Nat) : Path := [.field "steps", .index i]

/-- The rules for steps, of which the first has the index `i`. -/
def validateSteps (i : Nat) : List Step → Except Problem Unit
  | [] => .ok ()
  | step :: steps => do
    step.validate (stepPath i)
    validateSteps (i + 1) steps

def Document.validate (d : Document) : Except Problem Unit := do
  if d.version ≠ routineVersion then throw ⟨[.field "version"], .wrongVersion d.version⟩
  if Text.blank d.name then throw ⟨[.field "name"], .blankName⟩
  match d.defaults with
  | some defaults => defaults.validate [.field "defaults"]
  | none => pure ()
  if d.steps.isEmpty then throw ⟨[.field "steps"], .noSteps⟩
  validateSteps 0 d.steps

end RoomAudio
