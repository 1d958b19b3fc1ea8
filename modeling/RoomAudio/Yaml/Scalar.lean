import RoomAudio.Binary64
import RoomAudio.Json.Quoted
import RoomAudio.Text.Digits

/-!
# Plain scalars

What a scalar without quotes stands for when nothing else is known about it.

## Main definitions

* `Yaml.Meaning` — the kinds of value a plain scalar can stand for.
* `Yaml.Meaning.ofPlain` — the value of a plain scalar.
* `Yaml.integer?`, `Yaml.bool?`, `Yaml.isNullWord`, `Yaml.isFloat` — the notations of the kinds.

A number with a leading zero that has further digits is a text, and so is every word that is not
in one of the three spellings `true`, `True`, `TRUE`.
-/

namespace RoomAudio.Yaml

def isNullWord (l : List Char) : Bool :=
  ["null", "Null", "NULL", "~"].contains (String.ofList l)

def bool? (l : List Char) : Option Bool :=
  let word := String.ofList l
  if ["true", "True", "TRUE"].contains word then some true
  else if ["false", "False", "FALSE"].contains word then some false
  else none

def dropSign : List Char → List Char
  | '+' :: rest => rest
  | '-' :: rest => rest
  | l => l

/-- The text consists of digits, more than one, and the first of them is a zero. -/
def isZeroPadded : List Char → Bool
  | '0' :: rest => !rest.isEmpty && rest.all Char.isDigit
  | _ => false

def valueIn? (base : Nat) (digits : List Char) : Option Nat :=
  if digits.isEmpty then none
  else digits.foldlM (fun n c => do
    let d ← Json.hexValue? c
    if d < base then some (base * n + d) else none) 0

/-- The number without a sign that a text writes in decimal, hexadecimal, octal or binary
notation. -/
def magnitude? : List Char → Option Nat
  | '0' :: 'x' :: rest => valueIn? 16 rest
  | '0' :: 'o' :: rest => valueIn? 8 rest
  | '0' :: 'b' :: rest => valueIn? 2 rest
  | l => if isZeroPadded l then none else valueIn? 10 l

def integer? : List Char → Option Int
  | '+' :: rest => (magnitude? rest).map Int.ofNat
  | '-' :: rest => (magnitude? rest).map fun n => -(n : Int)
  | l => (magnitude? l).map Int.ofNat

/-- The integers that can be told from floating-point numbers. -/
def isInt128 (i : Int) : Bool := -Int.pow 2 127 ≤ i && i < Int.pow 2 128

def power? : List Char → Option Int
  | [] => some 0
  | c :: rest =>
    let digits := dropSign rest
    if (c = 'e' ∨ c = 'E') ∧ !digits.isEmpty ∧ digits.all Char.isDigit then
      let n : Int := Text.valueOfDigits digits
      some (if rest.head? = some '-' then -n else n)
    else none

/-- Whether the number with these digits and this power of ten is in the range of binary64. The
number is only computed near the end of the range. -/
def isInRange (digits : List Char) (power : Int) : Bool :=
  let digits := digits.dropWhile (· == '0')
  let size : Int := digits.length + power
  if digits.isEmpty || size ≤ 308 then true
  else if 309 < size then false
  else
    (Binary64.ofRatio (Text.valueOfDigits digits * Nat.pow 10 power.toNat)
      (Nat.pow 10 (-power).toNat)).isFinite

/-- A decimal number without a sign that is in the range of binary64. -/
def isDecimal (l : List Char) : Bool :=
  let whole := l.takeWhile Char.isDigit
  let (fraction, rest) :=
    match l.dropWhile Char.isDigit with
    | '.' :: rest => (rest.takeWhile Char.isDigit, rest.dropWhile Char.isDigit)
    | rest => ([], rest)
  if whole.isEmpty && fraction.isEmpty then false
  else
    match power? rest with
    | none => false
    | some power => isInRange (whole ++ fraction) (power - fraction.length)

def isInfinityWord (l : List Char) : Bool :=
  [".inf", ".Inf", ".INF"].contains (String.ofList l)

def isNanWord (l : List Char) : Bool :=
  [".nan", ".NaN", ".NAN"].contains (String.ofList l)

def isFloat (l : List Char) : Bool :=
  isNanWord l || isInfinityWord (dropSign l) || isDecimal (dropSign l)

inductive Meaning where
  | null
  | bool (b : Bool)
  | int (i : Int)
  | float
  | text
  deriving DecidableEq, Repr

def Meaning.ofPlain (l : List Char) : Meaning :=
  if l.isEmpty || isNullWord l then .null
  else
    match bool? l, (integer? l).filter isInt128 with
    | some b, _ => .bool b
    | none, some i => .int i
    | none, none => if !isZeroPadded (dropSign l) && isFloat l then .float else .text

end RoomAudio.Yaml
