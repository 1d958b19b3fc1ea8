import RoomAudio.Binary64
import RoomAudio.Text.Blank
import RoomAudio.Text.Digits

/-!
# Durations

Durations are written as segments such as `1m30s`: decimal numbers, each directly followed by its
unit. They are measured in binary64 arithmetic and counted in nanoseconds.

## Main definitions

* `Duration.Segment` — a number and its unit.
* `Duration.segments?` — the segments a text consists of.
* `Duration.parse` — the nanoseconds of a text.
* `Duration.Error.message` — the wording of a refusal.
-/

namespace RoomAudio.Duration

inductive TimeUnit where
  | nanosecond | microsecond | millisecond | second | minute | hour
  deriving DecidableEq, Repr

def TimeUnit.nanos : TimeUnit → Nat
  | .nanosecond => 1
  | .microsecond => 1000
  | .millisecond => 1000000
  | .second => 1000000000
  | .minute => 60000000000
  | .hour => 3600000000000

/-- The unit at the front of a text. The micro sign and the Greek letter mu are the same unit, and
`ms` is not read as minutes. -/
def TimeUnit.read : List Char → Option (TimeUnit × List Char)
  | 'n' :: 's' :: rest => some (.nanosecond, rest)
  | 'u' :: 's' :: rest => some (.microsecond, rest)
  | '\u00B5' :: 's' :: rest => some (.microsecond, rest)
  | '\u03BC' :: 's' :: rest => some (.microsecond, rest)
  | 'm' :: 's' :: rest => some (.millisecond, rest)
  | 's' :: rest => some (.second, rest)
  | 'm' :: rest => some (.minute, rest)
  | 'h' :: rest => some (.hour, rest)
  | _ => none

structure Segment where
  whole : List Char
  fraction : List Char
  unit : TimeUnit
  deriving DecidableEq, Repr

/-- The number of a segment as the nearest binary64 number. -/
def Segment.amount (s : Segment) : Binary64 :=
  Binary64.ofRatio (Text.valueOfDigits (s.whole ++ s.fraction)) (Nat.pow 10 s.fraction.length)

def Segment.nanos (s : Segment) : Binary64 := s.amount.mul (Binary64.ofNat s.unit.nanos)

/-- The decimal number at the front of a text: digits with an optional point and further digits,
or a point followed by digits. -/
def readNumber (l : List Char) : Option (List Char × List Char × List Char) :=
  let whole := l.takeWhile Char.isDigit
  match l.dropWhile Char.isDigit with
  | '.' :: rest =>
    let fraction := rest.takeWhile Char.isDigit
    if whole.isEmpty && fraction.isEmpty then none
    else some (whole, fraction, rest.dropWhile Char.isDigit)
  | rest => if whole.isEmpty then none else some (whole, [], rest)

def Segment.read (l : List Char) : Option (Segment × List Char) := do
  let (whole, fraction, rest) ← readNumber l
  let (unit, rest) ← TimeUnit.read rest
  return (⟨whole, fraction, unit⟩, rest)

def segmentsUpTo : Nat → List Char → Option (List Segment)
  | _, [] => some []
  | 0, _ :: _ => none
  | limit + 1, l@(_ :: _) => do
    let (segment, rest) ← Segment.read l
    return segment :: (← segmentsUpTo limit rest)

def segments? (l : List Char) : Option (List Segment) := segmentsUpTo l.length l

/-- The sum of the segments, rounded after each of them. -/
def total (segments : List Segment) : Binary64 :=
  segments.foldl (fun sum s => sum.add s.nanos) (.finite 0)

/-- Why a text is no duration. The text itself is kept for the wording. -/
inductive Error where
  | empty
  | invalid (raw : String)
  /-- The duration has more nanoseconds than can be counted. -/
  | outOfRange (raw : String)
  deriving DecidableEq, Repr

def Error.message : Error → String
  | .empty => "duration is empty"
  | .invalid raw => s!"invalid duration \"{raw}\""
  | .outOfRange raw => s!"duration \"{raw}\" is out of range"

def maxNanos : Nat := Nat.pow 2 64 - 1

/-- The nanoseconds of a sum. Sums above `maxNanos`, as binary64 has it, are refused. -/
def ofTotal (raw : String) (sum : Binary64) : Except Error Nat :=
  if sum.exceeds (Binary64.ofNat maxNanos) then .error (.outOfRange raw)
  else .ok (min sum.toNat maxNanos)

/-- The nanoseconds that a text stands for. A bare zero needs no unit. -/
def parse (raw : String) : Except Error Nat :=
  let text := Text.trimChars raw.toList
  if text.isEmpty then .error .empty
  else if text = ['0'] then .ok 0
  else
    match segments? text with
    | none => .error (.invalid raw)
    | some segments => ofTotal raw (total segments)

end RoomAudio.Duration
