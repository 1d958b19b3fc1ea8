/-!
# Points in time

Seconds since the beginning of 1970 and their written form: date and time of day in the Gregorian
calendar, in universal time, with as many groups of three digits behind the second as needed.

## Main definitions

* `Timestamp` — a point in time.
* `Timestamp.civil` — the date of a day.
* `Timestamp.render` — the written form.
-/

namespace RoomAudio

/-- A point in time. In a leap second the nanoseconds count beyond the second. -/
structure Timestamp where
  /-- Seconds since the beginning of 1970. -/
  seconds : Int
  nanos : Nat
  deriving DecidableEq, Repr

namespace Timestamp

def secondsOfDay : Nat := 86400

def day (t : Timestamp) : Int := t.seconds / (secondsOfDay : Nat)

def second (t : Timestamp) : Nat := (t.seconds % (secondsOfDay : Nat)).toNat

def daysOfCycle : Nat := 146097

/-- The days from the first of March of the year 0 to the first day of 1970. -/
def daysBefore1970 : Int := 719468

/-- Year, month and day of the month of a day that is counted from the first one of 1970. Years are
taken to begin in March, so that the leap day is their last one. -/
def civil (day : Int) : Int × Nat × Nat :=
  let z := day + daysBefore1970
  let cycle := z / (daysOfCycle : Nat)
  let inCycle := (z % (daysOfCycle : Nat)).toNat
  let year := (inCycle - inCycle / 1460 + inCycle / 36524 - inCycle / 146096) / 365
  let inYear := inCycle - (365 * year + year / 4 - year / 100)
  let month := (5 * inYear + 2) / 153
  let dayOfMonth := inYear - (153 * month + 2) / 5 + 1
  let year : Int := year + cycle * 400
  if month < 10 then (year, month + 3, dayOfMonth) else (year + 1, month - 9, dayOfMonth)

def padded (width n : Nat) : List Char :=
  let digits := Nat.toDigits 10 n
  List.replicate (width - digits.length) '0' ++ digits

/-- A year. Outside of four digits it has a sign. -/
def renderYear (year : Int) : List Char :=
  if 0 ≤ year ∧ year ≤ 9999 then padded 4 year.toNat
  else (if year < 0 then '-' else '+') :: padded 4 year.natAbs

def renderFraction (nanos : Nat) : List Char :=
  if nanos = 0 then []
  else if nanos % 1000000 = 0 then '.' :: padded 3 (nanos / 1000000)
  else if nanos % 1000 = 0 then '.' :: padded 6 (nanos / 1000)
  else '.' :: padded 9 nanos

def nanosOfSecond : Nat := 1000000000

def add (t : Timestamp) (nanos : Nat) : Timestamp :=
  let total := t.nanos + nanos
  ⟨t.seconds + (total / nanosOfSecond : Nat), total % nanosOfSecond⟩

def render (t : Timestamp) : String :=
  let (year, month, day) := civil t.day
  let second := t.second
  let carry := t.nanos / nanosOfSecond
  String.ofList <|
    renderYear year ++ '-' :: padded 2 month ++ '-' :: padded 2 day ++ 'T' ::
    padded 2 (second / 3600) ++ ':' :: padded 2 (second / 60 % 60) ++ ':' ::
    padded 2 (second % 60 + carry) ++ renderFraction (t.nanos % nanosOfSecond) ++ ['Z']

end Timestamp

end RoomAudio
