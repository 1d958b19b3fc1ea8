import RoomAudio.Player.Cancel
import RoomAudio.Player.Command

/-!
# What surrounds a run

The player, the clock and the cancel signal as a run meets them. They are one state machine over
states of any type: every action leads to a next state, the clock never goes back, and an
interruption is never taken back. Answers of the player may depend on everything that went before.

## Main definitions

* `Environment` — the actions on the states, with their laws.
* `Session` — the exchanges with the player so far and the current state.
* `Run` — computations that act on a session and can fail.
-/

namespace RoomAudio

/-- The player, the clock and the cancel signal over states `σ`. -/
structure Environment (σ : Type) where
  call : (c : Command) → σ → Except Failure c.Answer × σ
  /-- What happens until the next look at the clock and the signal. -/
  tick : σ → σ
  pause : Nat → σ → σ
  /-- The time in nanoseconds. -/
  time : σ → Nat
  interrupted : σ → Bool
  /-- The time at which the signal trips by itself. -/
  deadline : Option Nat
  time_le_call : ∀ c s, time s ≤ time (call c s).2
  time_le_tick : ∀ s, time s ≤ time (tick s)
  time_add_le_pause : ∀ d s, time s + d ≤ time (pause d s)
  interrupted_call : ∀ c s, interrupted s → interrupted (call c s).2
  interrupted_tick : ∀ s, interrupted s → interrupted (tick s)
  interrupted_pause : ∀ d s, interrupted s → interrupted (pause d s)

namespace Environment

variable {σ : Type}

def signal (e : Environment σ) (s : σ) : CancelSignal := ⟨e.deadline, e.interrupted s⟩

def cancellation? (e : Environment σ) (s : σ) : Option Cancellation :=
  (e.signal s).check (e.time s)

end Environment

/-- The exchanges with the player so far, in order, and the state that was reached. -/
structure Session (σ : Type) where
  exchanges : List Exchange := []
  world : σ

def Session.calls {σ : Type} (s : Session σ) : List Command := s.exchanges.map Exchange.command

/-- Computations that act on a session. What was done before a failure stays done. -/
abbrev Run (σ : Type) := ExceptT Failure (StateM (Session σ))

namespace Environment

variable {σ : Type}

def send (e : Environment σ) (c : Command) : Run σ c.Answer := fun s =>
  let (answer, world) := e.call c s.world
  (answer, { exchanges := s.exchanges ++ [⟨c, answer⟩], world })

/-- Lets time pass until the next look at the clock. -/
def look (e : Environment σ) (s : Session σ) : Session σ := { s with world := e.tick s.world }

def checkSignal (e : Environment σ) : Run σ Unit := fun s =>
  let s := e.look s
  match e.cancellation? s.world with
  | some cancellation => (.error (.because cancellation.message), s)
  | none => (.ok (), s)

end Environment

end RoomAudio
