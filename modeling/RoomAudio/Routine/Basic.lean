import RoomAudio.Text.Blank
import RoomAudio.Text.Case

/-!
# Routines

A routine is a document that lists playback steps, together with defaults for the steps that do
not carry their own values. Its values are kept as authored; `Routine.Validation` states which of
them are accepted and `Routine.Resolution` turns them into parameters.

## Main definitions

* `Backend`, `PlaybackState`, `TransportAction` — the closed sets of names.
* `Defaults` — the defaults of a document or of the settings.
* `Step` — one action, with the fields that belong to it.
* `Document` — a routine.
-/

namespace RoomAudio

inductive Backend where
  /-- Devices are controlled directly through the player application. -/
  | airplay
  /-- Named automation shortcuts are run. -/
  | native
  deriving DecidableEq, Repr

namespace Backend

def name : Backend → String
  | .airplay => "airplay"
  | .native => "native"

/-- The backend of that name; blank characters around it do not matter. -/
def ofName? (raw : String) : Option Backend :=
  let name := Text.trim raw
  if name = "airplay" then some .airplay
  else if name = "native" then some .native
  else none

end Backend

inductive PlaybackState where
  | playing | paused | stopped
  deriving DecidableEq, Repr

namespace PlaybackState

def name : PlaybackState → String
  | .playing => "playing"
  | .paused => "paused"
  | .stopped => "stopped"

def all : List PlaybackState := [.playing, .paused, .stopped]

/-- The state of that name; blank characters around it and the case of ASCII letters do not
matter. -/
def ofName? (raw : String) : Option PlaybackState :=
  let name := Text.asciiLower (Text.trim raw)
  if name = "playing" then some .playing
  else if name = "paused" then some .paused
  else if name = "stopped" then some .stopped
  else none

/-- Whether a report of the player names the state; blank characters around it and the case of
letters do not matter. -/
def isNamedBy (s : PlaybackState) (report : String) : Bool :=
  Text.lower (Text.trim report) == s.name

end PlaybackState

inductive TransportAction where
  | stop
  deriving DecidableEq, Repr

namespace TransportAction

def name : TransportAction → String
  | .stop => "stop"

/-- The action of exactly that name. -/
def ofName? (raw : String) : Option TransportAction :=
  if raw = "stop" then some .stop else none

end TransportAction

/-- Defaults as authored, in a document or in the settings. -/
structure Defaults where
  /-- The name of a backend, or a blank text. -/
  backend : String := ""
  /-- The rooms of steps that name none. -/
  rooms : List String := []
  /-- The volume that is set before playback starts. -/
  volume : Option Int := none
  shuffle : Option Bool := none
  deriving DecidableEq, Repr

namespace Defaults

def isEmpty (d : Defaults) : Bool :=
  Text.blank d.backend && d.rooms.isEmpty && d.volume.isNone && d.shuffle.isNone

end Defaults

/-- One action of a routine. Values that a rule has to look at are kept as authored. -/
inductive Step where
  | outSet (rooms : List String)
  /-- Start a playlist, found by a search or by its identifier. -/
  | play (query playlistId : Option String)
  /-- Set the volume, of the given rooms or of the default ones. -/
  | volumeSet (value : Option Int) (rooms : Option (List String))
  | wait (state timeout : String)
  | transport (action : String)
  | unsupported (kind : String)
  deriving DecidableEq, Repr

namespace Step

def kind : Step → String
  | .outSet _ => "out.set"
  | .play _ _ => "play"
  | .volumeSet _ _ => "volume.set"
  | .wait _ _ => "wait"
  | .transport _ => "transport"
  | .unsupported kind => kind

end Step

structure Document where
  version : String := ""
  name : String := ""
  defaults : Option Defaults := none
  /-- The steps in the order in which they are carried out. -/
  steps : List Step := []
  deriving DecidableEq, Repr

end RoomAudio
