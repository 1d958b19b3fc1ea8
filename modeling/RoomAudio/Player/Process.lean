import RoomAudio.Player.Cancel
import RoomAudio.Player.Command
import RoomAudio.Text.Blank
import RoomAudio.Text.Utf8

/-!
# Programs

Programs that are started one after the other. What becomes of each of them is laid down
beforehand: after some time it ends with some output and a code or by a signal, or it goes on until
it is stopped from outside. While a program runs it is looked at in regular intervals.

## Main definitions

* `ProcessEnd` — what becomes of a program.
* `Processes` — the programs started so far and those to come.
* `Processes.await` — waits for the end of a program, or stops it.
* `Processes.run` — starts a program and takes its output.
-/

namespace RoomAudio

/-- What becomes of a program, which may end after some time in nanoseconds. -/
inductive ProcessEnd where
  | exit (code : Nat) (stdout stderr : List UInt8) (after : Nat := 0)
  /-- A signal ends the program. It is described by its number and its name, if it has one. -/
  | signal (description : String) (stdout stderr : List UInt8) (after : Nat := 0)
  /-- The program goes on until it is stopped. -/
  | hang
  deriving DecidableEq, Repr

structure Processes where
  /-- What becomes of the next programs. Those after them end without output. -/
  next : List ProcessEnd := []
  /-- The programs that were started, with their arguments. -/
  started : List (String × List String) := []
  /-- The time in nanoseconds. -/
  time : Nat := 0
  interrupted : Bool := false

namespace Processes

/-- How often a program is looked at while it runs. -/
def pollInterval : Nat := 50 * 1000000

/-- When a program that was started at `now` is looked at for the first time from `t` on. -/
def firstPoll (now t : Nat) : Nat :=
  now + (t - now + (pollInterval - 1)) / pollInterval * pollInterval

/-- A program is not looked at before it was started. -/
theorem le_firstPoll (now t : Nat) : now ≤ firstPoll now t := Nat.le_add_right _ _

@[simp] theorem firstPoll_self (now : Nat) : firstPoll now now = now := by
  simp [firstPoll, pollInterval]

/-- The text of an output; it is empty if the bytes are no text. -/
def textOf (bytes : List UInt8) : List Char :=
  match Text.Utf8.decode bytes with
  | .ok text => text
  | .error _ => []

def endedWith (program status : String) (stderr : List UInt8) : Failure :=
  let detail := String.ofList (Text.trimChars (textOf stderr))
  let report := s!"{program} exited with {status}"
  .because (if detail.isEmpty then report else s!"{report}: {detail}")

/-- How long a program takes and its outcome, if it ends by itself. -/
def outcome? (program : String) :
    ProcessEnd → Option (Nat × Except Failure (List Char))
  | .exit 0 stdout _ after => some (after, .ok (textOf stdout))
  | .exit code _ stderr after =>
    some (after, .error (endedWith program s!"exit status: {code}" stderr))
  | .signal description _ stderr after =>
    some (after, .error (endedWith program s!"signal: {description}" stderr))
  | .hang => none

/-- The outcome of a program that is stopped, and the time when that happens. -/
def stopped (deadline : Option Nat) (program : String) (now : Nat) : Failure × Nat :=
  match deadline.filter (· ≤ now + commandDeadline) with
  | some deadline => (.because Cancellation.deadlineExceeded.message, firstPoll now deadline)
  | none => (.because s!"{program} timed out after 30s", firstPoll now (now + commandDeadline))

theorem le_stopped (deadline : Option Nat) (program : String) (now : Nat) :
    now ≤ (stopped deadline program now).2 := by
  unfold stopped
  split <;> exact le_firstPoll _ _

/-- The outcome of a program that was started at `now`, and the time when it is known. A program
that is found to have ended when it is to be stopped has ended. -/
def await (deadline : Option Nat) (program : String) (fate : ProcessEnd) (now : Nat) :
    Except Failure (List Char) × Nat :=
  let (failure, limit) := stopped deadline program now
  match outcome? program fate with
  | some (after, outcome) =>
    let ended := firstPoll now (now + after)
    if ended ≤ limit then (outcome, ended) else (.error failure, limit)
  | none => (.error failure, limit)

theorem le_await (deadline : Option Nat) (program : String) (fate : ProcessEnd) (now : Nat) :
    now ≤ (await deadline program fate now).2 := by
  unfold await
  dsimp only
  split
  · split
    · exact le_firstPoll _ _
    · exact le_stopped _ _ _
  · exact le_stopped _ _ _

def notStarted (program reason : String) : Failure :=
  (Failure.because reason).within s!"failed to start {program}"

/-- Starts a program and takes what it writes. An argument must not hold the character zero. The
program is stopped at once if the cancel signal has tripped already. -/
def run (installed : Bool) (deadline : Option Nat) (program : String) (arguments : List String)
    (p : Processes) : Except Failure (List Char) × Processes :=
  if arguments.any fun a => a.toList.any (·.toNat == 0) then
    (.error (notStarted program "nul byte found in provided data"), p)
  else if !installed then
    (.error (notStarted program "No such file or directory (os error 2)"), p)
  else
    let started := p.started ++ [(program, arguments)]
    let next := p.next.tail
    match CancelSignal.check ⟨deadline, p.interrupted⟩ p.time with
    | some cancellation => (.error (.because cancellation.message), { p with next, started })
    | none =>
      let (outcome, time) := await deadline program (p.next.headD (.exit 0 [] [])) p.time
      (outcome, { p with next, started, time })

/-- Time does not go back while a program runs. -/
theorem le_time_run (installed : Bool) (deadline : Option Nat) (program : String)
    (arguments : List String) (p : Processes) :
    p.time ≤ (run installed deadline program arguments p).2.time := by
  unfold run
  split
  · exact Nat.le_refl _
  split
  · exact Nat.le_refl _
  dsimp only
  split
  · exact Nat.le_refl _
  · exact le_await _ _ _ _

@[simp] theorem interrupted_run (installed : Bool) (deadline : Option Nat) (program : String)
    (arguments : List String) (p : Processes) :
    (run installed deadline program arguments p).2.interrupted = p.interrupted := by
  unfold run
  split
  · rfl
  split
  · rfl
  dsimp only
  split <;> rfl

end Processes

end RoomAudio
