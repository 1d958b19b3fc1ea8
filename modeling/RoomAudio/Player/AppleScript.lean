import RoomAudio.Player.Command
import RoomAudio.Text.Blank

/-!
# Scripts for the player application

The AppleScript texts by which the player application is asked to carry out commands, and how
what it writes is read.

## Main definitions

* `AppleScript.quote` — a text as a literal.
* `AppleScript.body` — the script of a command, inside of the block that addresses the player.
* `AppleScript.tell` — the whole script.
* `AppleScript.playlistsOf` — reads a list of playlists.
-/

namespace RoomAudio.AppleScript

def escape (special : Char) (l : List Char) : List Char :=
  l.flatMap fun c => if c = special then ['\\', c] else [c]

/-- Backslashes are escaped before quotes, since the backslashes of quotes stay as they are. -/
def quote (s : String) : String :=
  String.ofList ('"' :: escape '"' (escape '\\' s.toList) ++ ['"'])

/-- Selects the devices with the given names; each of them has to be there. -/
def selectOutputs (rooms : List String) : String :=
  "set found to \x7b\x7d\n" ++
  "repeat with deviceName in \x7b" ++ String.intercalate ", " (rooms.map quote) ++ "\x7d\n" ++
  "  set matchingDevices to (every AirPlay device whose name is (deviceName as text))\n" ++
  "  if (count of matchingDevices) is 0 then error \"AirPlay device not found: \" & deviceName\n" ++
  "  set end of found to item 1 of matchingDevices\n" ++
  "end repeat\n" ++
  "set current AirPlay devices to found"

/-- Lists the playlists whose names contain a text, one a line. -/
def listPlaylists (query : String) : String :=
  "set output to \"\"\n" ++
  "repeat with candidate in (every user playlist whose name contains " ++ quote query ++ ")\n" ++
  "  set output to output & (persistent ID of candidate) & tab & " ++
  "(name of candidate) & linefeed\n" ++
  "end repeat\n" ++
  "return output"

def namePlaylist (id : String) : String :=
  "set matchingPlaylists to (every playlist whose persistent ID is " ++ quote id ++ ")\n" ++
  "if (count of matchingPlaylists) is 0 then return \"\"\n" ++
  "return name of item 1 of matchingPlaylists"

/-- The script of a command. Shortcuts are not run by a script. -/
def body : Command → String
  | .setOutputs rooms => selectOutputs rooms
  | .setVolume room value =>
    s!"set sound volume of (first AirPlay device whose name is {quote room}) to {value}"
  | .setShuffle true => "set shuffle enabled to true"
  | .setShuffle false => "set shuffle enabled to false"
  | .searchPlaylists query => listPlaylists query
  | .playlistName id => namePlaylist id
  | .playPlaylist id => s!"play (first playlist whose persistent ID is {quote id})"
  | .runShortcut _ => ""
  | .playbackState => "return player state as text"
  | .stop => "stop"

def tell (application body : String) : String :=
  "tell application " ++ quote application ++ "\n" ++ body ++ "\nend tell"

/-- The playlist of a line: its identifier, a tab, and its name. -/
def playlistOf? (line : List Char) : Option Playlist :=
  match line.span (· != '\t') with
  | (_, []) => none
  | (id, _ :: name) =>
    let id := Text.trimChars id
    if id.isEmpty then none
    else some ⟨String.ofList id, String.ofList (Text.trimChars name)⟩

def playlistsOf (output : List Char) : List Playlist :=
  (Text.splitOn (· == '\n') output).filterMap playlistOf?

end RoomAudio.AppleScript
