import RoomAudio.Json.Printer
import RoomAudio.Routine.Record
import RoomAudio.Routine.Validation
import RoomAudio.Yaml.Printer

/-!
# Starter routines

Routines to begin with, and how a routine is written as a file.

## Main definitions

* `Preset.document?` — the starter routine of a name.
* `Document.print` — a routine as a file in one of the two notations.
-/

namespace RoomAudio

inductive Notation where
  | yaml | json
  deriving DecidableEq, Repr

def Document.print (d : Document) : Notation → String
  | .yaml => Yaml.print d.toData
  | .json => Json.pretty d.toData ++ "\n"

namespace Preset

def names : List String := ["morning", "focus", "wind-down"]

/-- A routine for one room: the room is selected, a playlist is started, and playback is awaited.
A final volume is optional. -/
def starter (name room query timeout : String) (level : Int) (shuffle : Bool) (final : Option Int) :
    Document where
  version := routineVersion
  name
  defaults := some
    { backend := Backend.airplay.name, rooms := [room], volume := some level,
      shuffle := some shuffle }
  steps :=
    [.outSet [room], .play (some query) none, .wait PlaybackState.playing.name timeout] ++
      (final.map fun value => Step.volumeSet (some value) none).toList

/-- The starter routine of a name; blank characters around it do not matter. -/
def document? (name : String) : Option Document :=
  let name := Text.trim name
  if name = "morning" then
    some (starter "Morning" "Kitchen" "Morning Jazz" "20s" 30 true (some 35))
  else if name = "focus" then
    some (starter "Focus" "Office" "Deep Focus" "15s" 25 false none)
  else if name = "wind-down" then
    some (starter "Wind Down" "Bedroom" "Evening Chill" "20s" 20 true (some 12))
  else none

end Preset

end RoomAudio
