/-!
# Commands to the player

What a routine can ask of the player, what the player answers, and how it fails.

## Main definitions

* `Playlist` — a playlist that the player knows.
* `Command`, `Command.Answer` — the commands and the type of the answer to each of them.
* `Failure` — why something failed, from the outermost context to the cause.
* `Exchange` — a command together with what came of it.
-/

namespace RoomAudio

structure Playlist where
  id : String
  name : String
  deriving DecidableEq, Repr

inductive Command where
  /-- Select rooms, in place of any that were selected before. -/
  | setOutputs (rooms : List String)
  | setVolume (room : String) (value : Nat)
  | setShuffle (enabled : Bool)
  | searchPlaylists (query : String)
  | playlistName (id : String)
  | playPlaylist (id : String)
  | runShortcut (name : String)
  | playbackState
  | stop
  deriving DecidableEq, Repr

namespace Command

abbrev Answer : Command → Type
  | .searchPlaylists _ => List Playlist
  | .playlistName _ => Option String
  | .playbackState => String
  | _ => Unit

end Command

/-- Why something failed: contexts, the outermost first, and the cause at the end. -/
structure Failure where
  causes : List String
  deriving DecidableEq, Repr

namespace Failure

def because (cause : String) : Failure := ⟨[cause]⟩

def within (f : Failure) (context : String) : Failure := ⟨context :: f.causes⟩

def message (f : Failure) : String := String.intercalate ": " f.causes

/-- The outermost context, or the cause if there is none. -/
def outermost (f : Failure) : String := f.causes.headD ""

end Failure

structure Exchange where
  command : Command
  answer : Except Failure command.Answer

end RoomAudio
