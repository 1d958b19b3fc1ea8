import RoomAudio.Player.Environment

/-!
# Players that follow a script

A player for rehearsals. What it knows, what it reports and where it fails is laid down beforehand,
and so is the command during which the run is interrupted. Asking for the state takes a moment,
everything else takes no time.

## Main definitions

* `Command.line` — a command in one line.
* `Script` — what is laid down.
* `Script.environment` — the player of a script.
-/

namespace RoomAudio

def Command.line : Command → String
  | .setOutputs rooms => "outputs " ++ String.intercalate "+" rooms
  | .setVolume room value => s!"volume {room} {value}"
  | .setShuffle enabled => if enabled then "shuffle true" else "shuffle false"
  | .searchPlaylists query => s!"search {query}"
  | .playlistName id => s!"name {id}"
  | .playPlaylist id => s!"play {id}"
  | .runShortcut name => s!"shortcut {name}"
  | .playbackState => "state"
  | .stop => "stop"

structure Script where
  playlists : List Playlist := []
  /-- The states it reports one after the other; the last one is repeated. -/
  states : List String := []
  /-- The failures of commands, by the beginning of their lines. -/
  faults : List (String × Failure) := []
  /-- The number of the command during which the run is interrupted. -/
  interruptAt : Option Nat := none
  /-- The time at which the cancel signal trips by itself. -/
  deadline : Option Nat := none

namespace Script

structure Progress where
  commands : Nat := 0
  states : List String
  time : Nat := 0
  interrupted : Bool := false

def stateTime : Nat := 3000000

def timeOf : Command → Nat
  | .playbackState => stateTime
  | _ => 0

def Progress.begin (p : Progress) (script : Script) (c : Command) : Progress :=
  { p with
    commands := p.commands + 1
    time := p.time + timeOf c
    interrupted := p.interrupted || script.interruptAt == some (p.commands + 1) }

def fault? (script : Script) (c : Command) : Option Failure :=
  (script.faults.find? fun f => f.1.toList.isPrefixOf c.line.toList).map Prod.snd

def reported (states : List String) : Except Failure String × List String :=
  match states with
  | [] => (.error (.because "player unavailable"), [])
  | [state] => (.ok state, [state])
  | state :: states => (.ok state, states)

/-- The answer to a command that does not fail, and the states that are left. -/
def answer (script : Script) (states : List String) :
    (c : Command) → Except Failure c.Answer × List String
  | .searchPlaylists _ => (.ok script.playlists, states)
  | .playlistName id => (.ok ((script.playlists.find? (·.id = id)).map Playlist.name), states)
  | .playbackState => reported states
  | .setOutputs _ => (.ok (), states)
  | .setVolume _ _ => (.ok (), states)
  | .setShuffle _ => (.ok (), states)
  | .playPlaylist _ => (.ok (), states)
  | .runShortcut _ => (.ok (), states)
  | .stop => (.ok (), states)

def respond (script : Script) (c : Command) (p : Progress) : Except Failure c.Answer × Progress :=
  let p := p.begin script c
  match script.fault? c with
  | some failure => (.error failure, p)
  | none =>
    let (answer, states) := script.answer p.states c
    (answer, { p with states })

theorem respond_snd (script : Script) (c : Command) (p : Progress) :
    ∃ states, (script.respond c p).2 = { p.begin script c with states } := by
  unfold respond
  cases script.fault? c with
  | some f => exact ⟨(p.begin script c).states, rfl⟩
  | none => exact ⟨_, rfl⟩

def environment (script : Script) : Environment Progress where
  call := script.respond
  tick := id
  pause := fun d p => { p with time := p.time + d }
  time := Progress.time
  interrupted := Progress.interrupted
  deadline := script.deadline
  time_le_call := by
    intro c p
    obtain ⟨states, h⟩ := script.respond_snd c p
    simp only [h, Progress.begin]
    omega
  time_le_tick := fun _ => Nat.le_refl _
  time_add_le_pause := fun _ _ => Nat.le_refl _
  interrupted_call := by
    intro c p hp
    obtain ⟨states, h⟩ := script.respond_snd c p
    simp [h, Progress.begin, hp]
  interrupted_tick := fun _ h => h
  interrupted_pause := fun _ _ h => h

def session (script : Script) (interrupted : Bool) : Session Progress :=
  { world := { states := script.states, interrupted } }

end Script

end RoomAudio
