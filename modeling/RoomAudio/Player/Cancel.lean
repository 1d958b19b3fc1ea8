/-!
# Cancellation

A signal that stops a run from outside: it trips when it is interrupted and when its deadline has
come. Times are counted in nanoseconds.

## Main definitions

* `CancelSignal` — a deadline and a flag.
* `CancelSignal.check` — whether the signal has tripped, and why.
* `CancelSignal.remaining` — the time until the deadline.
-/

namespace RoomAudio

inductive Cancellation where
  | interrupted
  | deadlineExceeded
  deriving DecidableEq, Repr

def Cancellation.message : Cancellation → String
  | .interrupted => "routine interrupted"
  | .deadlineExceeded => "routine deadline exceeded"

structure CancelSignal where
  /-- The time at which the signal trips by itself. -/
  deadline : Option Nat := none
  interrupted : Bool := false
  deriving DecidableEq, Repr

namespace CancelSignal

def interrupt (s : CancelSignal) : CancelSignal := { s with interrupted := true }

def isOver (s : CancelSignal) (now : Nat) : Bool := s.deadline.any (· ≤ now)

def check (s : CancelSignal) (now : Nat) : Option Cancellation :=
  if s.interrupted then some .interrupted
  else if s.isOver now then some .deadlineExceeded
  else none

def remaining (s : CancelSignal) (now : Nat) : Option Nat := s.deadline.map (· - now)

@[simp] theorem check_interrupt (s : CancelSignal) (now : Nat) :
    s.interrupt.check now = some .interrupted := rfl

@[simp] theorem check_eq_none_iff (s : CancelSignal) (now : Nat) :
    s.check now = none ↔ s.interrupted = false ∧ s.isOver now = false := by
  unfold check
  cases s.interrupted <;> cases s.isOver now <;> simp

end CancelSignal

def routineDeadline : Nat := 15 * 60 * 1000000000

def commandDeadline : Nat := 30 * 1000000000

end RoomAudio
