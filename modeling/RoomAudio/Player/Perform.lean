import RoomAudio.Player.Wait
import RoomAudio.Routine.Resolution
import RoomAudio.Search
import RoomAudio.Shortcuts

/-!
# Carrying out a step

The commands that a step gives to the player. The backend `airplay` controls the player directly;
the backend `native` runs the shortcuts that rooms are mapped to, and runs none of them unless
every room of the step is mapped.

## Main definitions

* `Parameters.perform` — carries out a step with its parameters.
-/

namespace RoomAudio

variable {σ : Type}

/-- Puts the failures of a computation into a further context. -/
def Run.within {α : Type} (x : Run σ α) (context : String) : Run σ α :=
  ExceptT.adapt (·.within context) x

/-- The shortcuts that rooms are mapped to, or what is said about the first room without one. -/
def mapRooms (lookup : String → Option String) (complaint : String → String) :
    List String → Except Failure (List String)
  | [] => .ok []
  | room :: rooms =>
    match lookup room with
    | none => .error (.because (complaint room))
    | some shortcut => (mapRooms lookup complaint rooms).map (shortcut :: ·)

namespace Environment

def findPlaylist (e : Environment σ) (query : String) : Run σ String := do
  let found ←
    Run.within (e.send (.searchPlaylists query)) s!"playlist search for \"{query}\" failed"
  match Search.best? Playlist.name found query with
  | some playlist => return playlist.id
  | none => throw (.because s!"no playlists found matching \"{query}\"")

def setVolumes (e : Environment σ) (rooms : List String) (value : Nat) : Run σ Unit :=
  rooms.forM fun room => e.send (.setVolume room value)

/-- Runs shortcuts one after the other, as long as the signal has not tripped. -/
def runShortcuts (e : Environment σ) (names : List String) : Run σ Unit :=
  names.forM fun name => do
    e.checkSignal
    e.send (.runShortcut name)

def runMapped (e : Environment σ) (lookup : String → Option String) (complaint : String → String)
    (rooms : List String) : Run σ Unit :=
  match mapRooms lookup complaint rooms with
  | .error failure => throw failure
  | .ok names => e.runShortcuts names

def nothingToPlay : Failure := .because "play requires either query or playlistId"

/-- The playlist that a step names: by its identifier, or else by a query. -/
def choosePlaylist (e : Environment σ) (playlistId query : Option String) : Run σ String :=
  match playlistId, query with
  | some id, _ => pure id
  | none, some query => e.findPlaylist query
  | none, none => throw nothingToPlay

def playDirectly (e : Environment σ) (rooms : List String) (playlistId query : Option String)
    (level : Option Nat) (shuffle : Option Bool) : Run σ Unit := do
  (if rooms.isEmpty then pure () else e.send (.setOutputs rooms))
  level.forM fun value => e.setVolumes rooms value
  shuffle.forM fun enabled => e.send (.setShuffle enabled)
  let id ← e.choosePlaylist playlistId query
  e.send (.playPlaylist id)

def nameOfPlaylist (e : Environment σ) (id : String) : Run σ String := do
  match ← e.send (.playlistName id) with
  | some name => return name
  | none => throw (.because s!"unknown playlist id \"{id}\"")

/-- The name of the playlist that a step names: a query, or else by its identifier. -/
def choosePlaylistName (e : Environment σ) (playlistId query : Option String) : Run σ String :=
  match query, playlistId with
  | some query, _ => pure query
  | none, some id => e.nameOfPlaylist id
  | none, none => throw nothingToPlay

/-- Runs the shortcuts that start a playlist in rooms, of which there has to be one. -/
def runPlaylistShortcuts (e : Environment σ) (shortcuts : Shortcuts) (rooms : List String)
    (name : String) : Run σ Unit :=
  if rooms.isEmpty then throw (.because "native play requires at least one room")
  else
    e.runMapped (shortcuts.forPlaylist? · name)
      (fun room => s!"no native shortcut mapped for room \"{room}\" and playlist \"{name}\"") rooms

/-- Starts a playlist in rooms by running the shortcuts they are mapped to. -/
def playByShortcuts (e : Environment σ) (shortcuts : Shortcuts) (rooms : List String)
    (playlistId query : Option String) : Run σ Unit := do
  let name ← e.choosePlaylistName playlistId query
  e.runPlaylistShortcuts shortcuts rooms name

def setVolume (e : Environment σ) (shortcuts : Shortcuts) (backend : Backend)
    (rooms : List String) (value : Nat) : Run σ Unit :=
  if rooms.isEmpty then
    throw (.because "volume.set requires at least one room from the step or the defaults")
  else
    match backend with
    | .airplay => e.setVolumes rooms value
    | .native =>
      e.runMapped (shortcuts.forVolume? · value)
        (fun room => s!"no native volume shortcut mapped for room \"{room}\" at volume {value}")
        rooms

end Environment

def Parameters.perform (e : Environment σ) (shortcuts : Shortcuts) : Parameters → Run σ Unit
  | .outputs .airplay rooms => e.send (.setOutputs rooms)
  | .outputs .native _ => throw (.because "out.set is not supported by the native backend")
  | .play .airplay rooms playlistId query level shuffle =>
    e.playDirectly rooms playlistId query level shuffle
  | .play .native rooms playlistId query _ _ => e.playByShortcuts shortcuts rooms playlistId query
  | .volume backend rooms value => e.setVolume shortcuts backend rooms value
  | .wait state timeout timeoutMs => e.waitFor state timeout (timeoutMs * 1000000)
  | .transport .stop => e.send .stop

end RoomAudio
