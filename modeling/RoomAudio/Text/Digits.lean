/-!
# Digits

Whole numbers from their digits.
-/

namespace RoomAudio.Text

def valueOfDigits (digits : List Char) : Nat :=
  digits.foldl (fun n c => 10 * n + (c.toNat - '0'.toNat)) 0

@[simp] theorem valueOfDigits_nil : valueOfDigits [] = 0 := rfl

/-- Whether an integer fits into 64 bits with a sign. -/
def isInt64 (i : Int) : Bool := -Int.pow 2 63 ≤ i && i < Int.pow 2 63

/-- The integer that a text writes: ASCII digits after at most one sign, within 64 bits. -/
def int64? (l : List Char) : Option Int :=
  let (negative, digits) :=
    match l with
    | '+' :: rest => (false, rest)
    | '-' :: rest => (true, rest)
    | l => (false, l)
  if digits.isEmpty || !digits.all Char.isDigit then none
  else
    let n : Int := valueOfDigits digits
    let i := if negative then -n else n
    if isInt64 i then some i else none

end RoomAudio.Text
