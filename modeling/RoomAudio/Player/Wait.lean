import RoomAudio.Player.Environment
import RoomAudio.Routine.Basic

/-!
# Waiting for a state

The player is asked for its state until it reports the wanted one, the time is over or the run is
cancelled. Between two questions the cancel signal is looked at in short intervals. The waiting
ends because the clock moves on.

## Main definitions

* `Environment.sleepUntil` — sleeps, unless the signal trips.
* `Environment.waitFor` — waits for a state.
-/

namespace RoomAudio

def pollInterval : Nat := 1000000000

theorem pollInterval_pos : 0 < pollInterval := by unfold pollInterval; omega

/-- The longest sleep between two looks at the signal. -/
def sleepSlice : Nat := 100000000

theorem sleepSlice_pos : 0 < sleepSlice := by unfold sleepSlice; omega

namespace Environment

variable {σ : Type}

/-- Sleeps until the clock shows the time `wake`, or until the signal has tripped. -/
def sleepUntil (e : Environment σ) (wake : Nat) (s : σ) : Option Cancellation × σ :=
  let checked := e.tick s
  match e.cancellation? checked with
  | some cancellation => (some cancellation, checked)
  | none =>
    let now := e.tick checked
    if wake ≤ e.time now then (none, now)
    else e.sleepUntil wake (e.pause (min sleepSlice (wake - e.time now)) now)
termination_by wake - e.time s
decreasing_by
  rename_i h
  replace h : ¬wake ≤ e.time (e.tick (e.tick s)) := h
  change wake - e.time (e.pause (min sleepSlice (wake - e.time (e.tick (e.tick s))))
    (e.tick (e.tick s))) < wake - e.time s
  have h₁ := e.time_le_tick s
  have h₂ := e.time_le_tick (e.tick s)
  have h₃ := e.time_add_le_pause (min sleepSlice (wake - e.time (e.tick (e.tick s))))
    (e.tick (e.tick s))
  have h₄ := sleepSlice_pos
  omega

/-- Who has slept to the end wakes up in time. -/
theorem le_time_sleepUntil (e : Environment σ) (wake : Nat) (s : σ)
    (h : (e.sleepUntil wake s).1 = none) : wake ≤ e.time (e.sleepUntil wake s).2 := by
  fun_induction sleepUntil e wake s with
  | case1 => simp at h
  | case2 s checked _ now hw => exact hw
  | case3 s checked _ now hw ih => exact ih h

/-- The wording when the wanted state was not reported in time. -/
def timeoutMessage (state : PlaybackState) (label : String) : String :=
  s!"timed out after {label} waiting for state {state.name}"

/-- Asks for the state, `interval` after `interval`, until the clock is past `deadline`. -/
def poll (e : Environment σ) (state : PlaybackState) (label : String) (interval deadline : Nat)
    (pos : 0 < interval) (s : Session σ) : Except Failure Unit × Session σ :=
  match hc : e.call .playbackState s.world with
  | (.error failure, world) =>
    (.error failure, ⟨s.exchanges ++ [⟨.playbackState, .error failure⟩], world⟩)
  | (.ok report, world) =>
    let exchanges := s.exchanges ++ [⟨.playbackState, .ok report⟩]
    if state.isNamedBy report then (.ok (), ⟨exchanges, world⟩)
    else
      let asked := e.tick world
      if deadline < e.time asked then
        (.error (.because (timeoutMessage state label)), ⟨exchanges, asked⟩)
      else
        let begun := e.tick asked
        match _hs : e.sleepUntil (e.time begun + interval) begun with
        | (some cancellation, world) => (.error (.because cancellation.message), ⟨exchanges, world⟩)
        | (none, world) => e.poll state label interval deadline pos ⟨exchanges, world⟩
termination_by deadline + 1 - e.time s.world
decreasing_by
  have h₁ := e.time_le_call .playbackState s.world
  rw [hc] at h₁
  have h₂ : _ ≤ e.time asked := e.time_le_tick _
  have h₃ : e.time asked ≤ e.time begun := e.time_le_tick asked
  have h₄ := e.le_time_sleepUntil (e.time begun + interval) begun (by rw [_hs])
  rw [_hs] at h₄
  simp only at h₁ h₄
  omega

def waitFor (e : Environment σ) (state : PlaybackState) (label : String) (timeout : Nat) :
    Run σ Unit := fun s =>
  let s := e.look s
  e.poll state label pollInterval (e.time s.world + timeout) pollInterval_pos s

end Environment

end RoomAudio
