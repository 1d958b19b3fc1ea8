import RoomAudio.Binary64
import RoomAudio.Json.Quoted
import RoomAudio.Text.Digits

/-!
# Reading JSON

A JSON text is read as a tree. Where the text breaks the grammar the tree has a leaf that says so,
so that a consumer who walks the tree in the order of the text meets what stands in front of the
break before the break itself.

## Main definitions

* `Json.Tree` — a JSON text as far as it can be read.
* `Json.Number` — a number as it is written, with `Number.int?` and `Number.isFinite`.
* `Json.Tree.read` — the tree at the front of a text and the rest of the text.
* `Json.Tree.isWhole` — there is no break in the tree.
-/

namespace RoomAudio.Json

structure Number where
  negative : Bool
  whole : List Char
  fraction : Option (List Char)
  /-- The digits of the power of ten, and whether it is negative. -/
  exponent : Option (Bool × List Char)
  deriving DecidableEq, Repr

namespace Number

/-- The value of a number without point and power that fits into 64 bits. A negative zero is no
integer. -/
def int? (n : Number) : Option Int :=
  if n.fraction.isSome || n.exponent.isSome then none
  else
    let value := Text.valueOfDigits n.whole
    if n.negative && value == 0 then none
    else
      let i : Int := if n.negative then -value else value
      if Text.isInt64 i then some i else none

/-- The largest leading part of a number that is kept exactly. -/
def maxSignificand : Nat := Nat.pow 2 64 - 1

/-- Appends the digits before the point. A digit that no longer fits, and all after it, only count
as powers of ten. -/
def takeWhole (significand exponent : Nat) : List Char → Nat × Nat
  | [] => (significand, exponent)
  | c :: rest =>
    let next := significand * 10 + (c.toNat - '0'.toNat)
    if next ≤ maxSignificand then takeWhole next exponent rest
    else (significand, exponent + rest.length + 1)

def takeFraction (significand : Nat) (exponent : Int) : List Char → Nat × Int
  | [] => (significand, exponent)
  | c :: rest =>
    let next := significand * 10 + (c.toNat - '0'.toNat)
    if next ≤ maxSignificand then takeFraction next (exponent - 1) rest
    else (significand, exponent)

def scaled (n : Number) : Nat × Int :=
  let (significand, exponent) := takeWhole 0 0 n.whole
  let (significand, exponent) := takeFraction significand exponent (n.fraction.getD [])
  match n.exponent with
  | none => (significand, exponent)
  | some (negative, digits) =>
    let power : Int := Text.valueOfDigits digits
    (significand, if negative then exponent - power else exponent + power)

def maxPower : Nat := 308

/-- Whether the number is in the range of the format binary64. -/
def isFinite (n : Number) : Bool :=
  match n.scaled with
  | (0, _) => true
  | (_, .negSucc _) => true
  | (significand, .ofNat power) =>
    power ≤ maxPower &&
      ((Binary64.ofNat significand).mul (Binary64.ofNat (Nat.pow 10 power))).isFinite

def readDigits (l : List Char) : Option (List Char × List Char) :=
  let digits := l.takeWhile Char.isDigit
  if digits.isEmpty then none else some (digits, l.dropWhile Char.isDigit)

/-- The digits before the point; a leading zero stands alone. -/
def readWhole : List Char → Option (List Char × List Char)
  | '0' :: rest =>
    match rest with
    | c :: _ => if c.isDigit then none else some (['0'], rest)
    | [] => some (['0'], [])
  | l => readDigits l

def readFraction : List Char → Option (Option (List Char) × List Char)
  | '.' :: rest => (readDigits rest).map fun (digits, rest) => (some digits, rest)
  | l => some (none, l)

def readExponent : List Char → Option (Option (Bool × List Char) × List Char)
  | c :: rest =>
    if c = 'e' ∨ c = 'E' then
      match rest with
      | '-' :: rest => (readDigits rest).map fun (digits, rest) => (some (true, digits), rest)
      | '+' :: rest => (readDigits rest).map fun (digits, rest) => (some (false, digits), rest)
      | rest => (readDigits rest).map fun (digits, rest) => (some (false, digits), rest)
    else some (none, c :: rest)
  | [] => some (none, [])

def readUnsigned (negative : Bool) (l : List Char) : Option (Number × List Char) := do
  let (whole, l) ← readWhole l
  let (fraction, l) ← readFraction l
  let (exponent, l) ← readExponent l
  return (⟨negative, whole, fraction, exponent⟩, l)

def read : List Char → Option (Number × List Char)
  | '-' :: rest => readUnsigned true rest
  | l => readUnsigned false l

end Number

/-- A JSON text as far as it can be read. -/
inductive Tree where
  | null
  | bool (b : Bool)
  | number (n : Number)
  /-- A text, or nothing where its escape sequences spell none. -/
  | text (s : Option String)
  | list (items : List Tree)
  | record (members : List (Option String × Tree))
  /-- The place where the text breaks the grammar. -/
  | cut

namespace Tree

def isSpace (c : Char) : Bool := c == ' ' || c == '\n' || c == '\t' || c == '\r'

def skipSpace (l : List Char) : List Char := l.dropWhile isSpace

def spelled (pieces : List Piece) : Option String := (textOf? pieces).map String.ofList

/-- What is left of a text after something was read, or nothing after a break. -/
abbrev Rest := Option (List Char)

mutual

/-- The value at the front of a text. The text holds at most `size` characters. -/
def readValue : Nat → List Char → Tree × Rest
  | 0, _ => (.cut, none)
  | size + 1, l =>
    match skipSpace l with
    | 'n' :: 'u' :: 'l' :: 'l' :: rest => (.null, some rest)
    | 't' :: 'r' :: 'u' :: 'e' :: rest => (.bool true, some rest)
    | 'f' :: 'a' :: 'l' :: 's' :: 'e' :: rest => (.bool false, some rest)
    | '"' :: rest =>
      match readQuoted rest with
      | some (pieces, rest) => (.text (spelled pieces), some rest)
      | none => (.cut, none)
    | '[' :: rest =>
      match skipSpace rest with
      | ']' :: rest => (.list [], some rest)
      | rest =>
        let (items, rest) := readItems size rest
        (.list items, rest)
    | '\x7b' :: rest =>
      match skipSpace rest with
      | '\x7d' :: rest => (.record [], some rest)
      | rest =>
        let (members, rest) := readMembers size rest
        (.record members, rest)
    | rest =>
      match Number.read rest with
      | some (n, rest) => (.number n, some rest)
      | none => (.cut, none)

/-- The items of a list, of which there is at least one, up to its end. -/
def readItems : Nat → List Char → List Tree × Rest
  | 0, _ => ([.cut], none)
  | size + 1, l =>
    match readValue size l with
    | (item, none) => ([item], none)
    | (item, some rest) =>
      match skipSpace rest with
      | ']' :: rest => ([item], some rest)
      | ',' :: rest =>
        let (items, rest) := readItems size rest
        (item :: items, rest)
      | _ => ([item, .cut], none)

/-- The members of a record, of which there is at least one, up to its end. -/
def readMembers : Nat → List Char → List (Option String × Tree) × Rest
  | 0, _ => ([(none, .cut)], none)
  | size + 1, l =>
    match skipSpace l with
    | '"' :: rest =>
      match readQuoted rest with
      | none => ([(none, .cut)], none)
      | some (pieces, rest) =>
        match skipSpace rest with
        | ':' :: rest =>
          match readValue size rest with
          | (value, none) => ([(spelled pieces, value)], none)
          | (value, some rest) =>
            match skipSpace rest with
            | '\x7d' :: rest => ([(spelled pieces, value)], some rest)
            | ',' :: rest =>
              let (members, rest) := readMembers size rest
              ((spelled pieces, value) :: members, rest)
            | _ => ([(spelled pieces, value), (none, .cut)], none)
        | _ => ([(spelled pieces, .cut)], none)
    | _ => ([(none, .cut)], none)

end

/-- The value at the front of a text, and the rest of the text. -/
def read (l : List Char) : Tree × Rest := readValue (2 * l.length + 1) l

mutual

def isWhole : Tree → Bool
  | .cut => false
  | .list items => areWhole items
  | .record members => membersWhole members
  | _ => true
termination_by structural t => t

def areWhole : List Tree → Bool
  | [] => true
  | t :: rest => isWhole t && areWhole rest
termination_by structural l => l

def membersWhole : List (Option String × Tree) → Bool
  | [] => true
  | (_, t) :: rest => isWhole t && membersWhole rest
termination_by structural l => l

end

end Tree

end RoomAudio.Json
