import RoomAudio.Player.AppleScript
import RoomAudio.Player.Environment
import RoomAudio.Player.Process

/-!
# The player application

A player that is controlled by programs: one runs scripts that address the application, another
one runs automation shortcuts.

## Main definitions

* `Application` — the application and what surrounds it.
* `Application.environment` — the player with the clock and the signal.
-/

namespace RoomAudio

structure Application where
  name : String
  /-- The programs that control the player are there. -/
  installed : Bool := true
  /-- The time at which the cancel signal trips by itself. -/
  deadline : Option Nat := none

namespace Application

/-- The program that carries out a command, with its arguments. -/
def program (a : Application) : Command → String × List String
  | .runShortcut name => ("shortcuts", ["run", name])
  | c => ("osascript", ["-e", AppleScript.tell a.name (AppleScript.body c)])

/-- The context of a failed command, if it has one of its own. -/
def context? : Command → Option String
  | .setOutputs rooms => some ("failed to select outputs " ++ String.intercalate ", " rooms)
  | .setVolume room _ => some s!"failed to set volume for {room}"
  | .setShuffle _ => some "failed to set shuffle"
  | .playPlaylist id => some s!"failed to play playlist {id}"
  | .runShortcut name => some s!"shortcut \"{name}\" failed"
  | .stop => some "failed to stop playback"
  | .searchPlaylists _ => none
  | .playlistName _ => none
  | .playbackState => none

def explain (c : Command) (f : Failure) : Failure :=
  match context? c with
  | some context => f.within context
  | none => f

def answer (output : List Char) : (c : Command) → c.Answer
  | .searchPlaylists _ => AppleScript.playlistsOf output
  | .playlistName _ => if output.isEmpty then none else some (String.ofList output)
  | .playbackState => String.ofList output
  | .setOutputs _ => ()
  | .setVolume _ _ => ()
  | .setShuffle _ => ()
  | .playPlaylist _ => ()
  | .runShortcut _ => ()
  | .stop => ()

def call (a : Application) (c : Command) (p : Processes) : Except Failure c.Answer × Processes :=
  let (program, arguments) := a.program c
  match p.run a.installed a.deadline program arguments with
  | (.ok output, p) => (.ok (answer (Text.trimChars output) c), p)
  | (.error failure, p) => (.error (explain c failure), p)

theorem call_snd (a : Application) (c : Command) (p : Processes) :
    (a.call c p).2 = (p.run a.installed a.deadline (a.program c).1 (a.program c).2).2 := by
  unfold call
  simp only
  split <;> simp_all

def environment (a : Application) : Environment Processes where
  call := a.call
  tick := id
  pause := fun d p => { p with time := p.time + d }
  time := Processes.time
  interrupted := Processes.interrupted
  deadline := a.deadline
  time_le_call := by
    intro c p
    rw [call_snd]
    exact Processes.le_time_run _ _ _ _ _
  time_le_tick := fun _ => Nat.le_refl _
  time_add_le_pause := fun _ _ => Nat.le_refl _
  interrupted_call := by
    intro c p h
    rw [call_snd, Processes.interrupted_run]
    exact h
  interrupted_tick := fun _ h => h
  interrupted_pause := fun _ _ h => h

end Application

end RoomAudio
