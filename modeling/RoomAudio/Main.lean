import RoomAudio.Cli.Program
import Std.Time.DateTime.Timestamp

/-!
# The executable

Runs the program on the files that its command line names. What stands at those paths is read
beforehand, and what the program changed is written afterwards. No programs are started, so a run
reports that the player is not there.
-/

namespace RoomAudio.Main

partial def readToEnd (input : IO.FS.Stream) (bytes : ByteArray) : IO ByteArray := do
  let more ← input.read 65536
  if more.isEmpty then return bytes
  readToEnd input (bytes ++ more)

def pathOf (place : Place) : String := "/" ++ String.intercalate "/" place

def readPlace (files : Files) (place : Place) : IO Files := do
  let here := (← IO.currentDir) / pathOf place
  if ← here.isDir then return files.put place .directory
  if ← here.pathExists then
    return files.put place (.file (← IO.FS.readBinFile here).toList)
  return files

/-- Takes over what stands at a path and on the way to it. -/
def readPath (files : Files) (path : String) : IO Files := do
  let mut files := files
  let mut place := files.start path
  for part in Files.parts path do
    match files.step place part with
    | .error _ => return files
    | .ok next =>
      place := next
      files ← readPlace files place
  return files

def writeChanges (before after : Files) : IO Unit := do
  for (place, entry) in after.entries do
    if before.entry? place ≠ some entry then
      match entry with
      | .directory => IO.FS.createDirAll (pathOf place)
      | .file bytes =>
        IO.FS.createDirAll (pathOf place.dropLast)
        IO.FS.writeBinFile (pathOf place) ⟨bytes.toArray⟩

def routinePath? : Action → Option String
  | .validate file _ => some file
  | .plan file _ => some file
  | .run file _ _ => some file
  | _ => none

def machine (request : Option Request) : IO Machine := do
  let vars : Settings.Variables := {
    home := (← IO.getEnv "HOME").getD ""
    settingsFile := ← IO.getEnv "ROOMCAST_CONFIG_PATH"
    settingsDirectory := ← IO.getEnv "XDG_CONFIG_HOME" }
  let current := Files.parts (← IO.currentDir).toString
  let mut files := { ({} : Files).mount current .directory with current }
  let mut stdin : List UInt8 := []
  if let some (.act settingsFile action) := request then
    files ← readPath files (Program.settingsPath vars settingsFile)
    if let some path := routinePath? action then
      if path = Program.stdinPath then
        stdin := (← readToEnd (← IO.getStdin) .empty).toList
      else
        files ← readPath files path
  let now ← Std.Time.Timestamp.now
  return {
    files, vars, stdin
    installed := false
    now := ⟨now.val.second.val, now.val.nano.val.toNat⟩ }

end RoomAudio.Main

def main (arguments : List String) : IO UInt32 := do
  let machine ← RoomAudio.Main.machine (RoomAudio.Request.parse arguments)
  let response := RoomAudio.Program.run machine arguments
  RoomAudio.Main.writeChanges machine.files response.files
  IO.print response.stdout
  if response.misuse then IO.eprint RoomAudio.Program.usage
  if let some line := response.stderr then IO.eprintln line
  return UInt32.ofNat response.status
