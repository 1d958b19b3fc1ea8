import RoomAudio.Table

/-!
# Shortcuts

Named automation shortcuts that start playlists and set volumes, room by room.

## Main definitions

* `Shortcuts` — which shortcut belongs to a room and a playlist, or to a room and a volume.
* `Shortcuts.forPlaylist?`, `Shortcuts.forVolume?` — looking one up.
* `Shortcuts.read`, `Shortcuts.toData` — shortcuts as records.
-/

namespace RoomAudio

structure Shortcuts where
  /-- By room and by the name of a playlist. -/
  playlists : Table (Table String) := .empty
  /-- By room and by the digits of a volume. -/
  volumes : Table (Table String) := .empty
  deriving DecidableEq, Repr

namespace Shortcuts

def forPlaylist? (s : Shortcuts) (room playlist : String) : Option String :=
  (s.playlists.find? room).bind (·.find? playlist)

def forVolume? (s : Shortcuts) (room : String) (value : Nat) : Option String :=
  (s.volumes.find? room).bind (·.get? (String.ofList (Nat.toDigits 10 value)))

/-- A table of one kind as a field; empty tables are left out. -/
def tableField (name : String) (t : Table (Table String)) : List (String × Data) :=
  if t.isEmpty then [] else [(name, t.toData (Table.toData .text))]

def toData (s : Shortcuts) : Data :=
  .record (tableField "playlists" s.playlists ++ tableField "volumes" s.volumes)

section Reading

variable {ν : Type} {m : Type → Type} [Monad m] [MonadExceptOf Fault m]

structure Draft where
  playlists : Option (Table (Table String)) := none
  volumes : Option (Table (Table String)) := none

def fieldNames : List String := ["playlists", "volumes"]

def readTables (F : Format ν m) (node : ν) : m (Table (Table String)) :=
  Table.read F (Table.read F F.text) node

def readField (F : Format ν m) (d : Draft) (name : String) (node : ν) : m Draft := do
  if name = "playlists" then
    return { d with playlists := ← Format.once d.playlists (readTables F node) }
  else if name = "volumes" then
    return { d with volumes := ← Format.once d.volumes (readTables F node) }
  else do
    F.skip node
    return d

def read (F : Format ν m) (node : ν) : m Shortcuts := do
  let draft ← F.fields fieldNames (readField F) {} node
  return { playlists := draft.playlists.getD .empty, volumes := draft.volumes.getD .empty }

end Reading

end Shortcuts

end RoomAudio
