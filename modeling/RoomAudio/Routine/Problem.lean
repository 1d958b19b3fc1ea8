import RoomAudio.Duration
import RoomAudio.Format
import RoomAudio.Text.Utf8

/-!
# Problems with a routine

What can be wrong with a routine or with defaults, and the field that it concerns.

## Main definitions

* `Path` — the way to a field, such as `steps[2].value`.
* `Problem.Cause` — a rule that is broken, with its wording `Problem.Cause.message`.
* `Problem` — a cause at a path, with its wording `Problem.display`.
-/

namespace RoomAudio

inductive Path.Part where
  | field (name : String)
  | index (i : Nat)
  deriving DecidableEq, Repr

/-- The way to a field; the empty one stands for the document as a whole. -/
abbrev Path := List Path.Part

namespace Path

def Part.render : Part → String
  | .field name => "." ++ name
  | .index i => s!"[{i}]"

def render : Path → String
  | [] => ""
  | .field name :: rest => rest.foldl (fun s part => s ++ part.render) name
  | .index i :: rest => rest.foldl (fun s part => s ++ part.render) s!"[{i}]"

end Path

inductive TimeoutError where
  | duration (error : Duration.Error)
  /-- It is a duration that is too short or too long. -/
  | outOfBounds (text : String)
  deriving DecidableEq, Repr

def TimeoutError.message : TimeoutError → String
  | .duration error => error.message
  | .outOfBounds text => s!"must be between 1s and 10m (got \"{text}\")"

namespace Problem

inductive Cause where
  | notUtf8 (fault : Text.Utf8.Fault)
  | emptySource
  | badJson (fault : Fault)
  | badYaml (fault : Fault)
  | wrongVersion (version : String)
  | blankName
  | unknownBackend (name : String)
  | volumeRange (volume : Int)
  | blankRoom
  | noSteps
  | noRooms
  | nothingToPlay
  | twoThingsToPlay
  | missing
  | unknownState (name : String)
  | timeout (error : TimeoutError)
  | unknownAction (name : String)
  | unsupportedKind (kind : String)
  /-- The volume of a step that is resolved without being validated. -/
  | noVolume
  /-- The state of a step that is resolved without being validated. -/
  | unsupportedState (name : String)
  /-- The action of a step that is resolved without being validated. -/
  | unsupportedAction (name : String)
  deriving DecidableEq, Repr

def faultMessage : Fault → String
  | .malformed => "the text does not have the form of a routine"
  | .versionNotText => "version must be the string \"1\""

def Cause.message : Cause → String
  | .notUtf8 fault => s!"routine is not valid UTF-8: {fault.message}"
  | .emptySource => "automation file is empty"
  | .badJson fault => s!"invalid JSON: {faultMessage fault}"
  | .badYaml fault => s!"invalid YAML: {faultMessage fault}"
  | .wrongVersion version => s!"must be \"1\" (got \"{version}\")"
  | .blankName => "must not be empty"
  | .unknownBackend name => s!"must be \"airplay\" or \"native\" (got \"{name}\")"
  | .volumeRange volume => s!"must be between 0 and 100 (got {volume})"
  | .blankRoom => "room name must not be empty"
  | .noSteps => "must contain at least one step"
  | .noRooms => "must list at least one room"
  | .nothingToPlay => "play requires either query or playlistId"
  | .twoThingsToPlay => "play accepts only one of query or playlistId"
  | .missing => "is required"
  | .unknownState name => s!"must be one of playing, paused, stopped (got \"{name}\")"
  | .timeout error => error.message
  | .unknownAction name => s!"must be \"stop\" (got \"{name}\")"
  | .unsupportedKind kind => s!"unsupported step type \"{kind}\""
  | .noVolume => "must be between 0 and 100"
  | .unsupportedState name => s!"unsupported state \"{name}\""
  | .unsupportedAction name => s!"unsupported action \"{name}\""

end Problem

structure Problem where
  path : Path
  cause : Problem.Cause
  deriving DecidableEq, Repr

namespace Problem

def document (cause : Cause) : Problem := ⟨[], cause⟩

def message (p : Problem) : String := p.cause.message

def display (p : Problem) : String :=
  let path := p.path.render
  if path.isEmpty then p.message else s!"{path}: {p.message}"

end Problem

end RoomAudio
