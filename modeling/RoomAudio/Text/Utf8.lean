/-!
# UTF-8

Texts as bytes and back. Reading says where the first fault is and how many bytes it spoils.

## Main definitions

* `Utf8.encode` — the bytes of a text.
* `Utf8.decode` — the text of a list of bytes, or the first fault.
* `Utf8.Fault.message` — the wording of a fault.
-/

namespace RoomAudio.Text.Utf8

def encodeChar (c : Char) : List UInt8 :=
  let n := c.toNat
  if n < 0x80 then [UInt8.ofNat n]
  else if n < 0x800 then [UInt8.ofNat (0xC0 + n / 64), UInt8.ofNat (0x80 + n % 64)]
  else if n < 0x10000 then
    [UInt8.ofNat (0xE0 + n / 4096), UInt8.ofNat (0x80 + n / 64 % 64), UInt8.ofNat (0x80 + n % 64)]
  else
    [UInt8.ofNat (0xF0 + n / 262144), UInt8.ofNat (0x80 + n / 4096 % 64),
      UInt8.ofNat (0x80 + n / 64 % 64), UInt8.ofNat (0x80 + n % 64)]

def encode (l : List Char) : List UInt8 := l.flatMap encodeChar

/-- The first place where bytes are no text. -/
inductive Fault where
  /-- The `length` bytes from index `start` on cannot occur. -/
  | invalid (length start : Nat)
  /-- The bytes end inside the character that begins at index `start`. -/
  | incomplete (start : Nat)
  deriving DecidableEq, Repr

def Fault.message : Fault → String
  | .invalid length start =>
    s!"invalid utf-8 sequence of {length} bytes from index {start}"
  | .incomplete start => s!"incomplete utf-8 byte sequence from index {start}"

/-- Continuation bytes. -/
def isTail (b : Nat) : Bool := 0x80 ≤ b && b ≤ 0xBF

/-- Whether `b` may follow the first byte `a` of a character of three or four bytes. The range is
narrower where the character would have a shorter form, be a surrogate, or lie beyond U+10FFFF. -/
def isSecond (a b : Nat) : Bool :=
  if a = 0xE0 then 0xA0 ≤ b && b ≤ 0xBF
  else if a = 0xED then 0x80 ≤ b && b ≤ 0x9F
  else if a = 0xF0 then 0x90 ≤ b && b ≤ 0xBF
  else if a = 0xF4 then 0x80 ≤ b && b ≤ 0x8F
  else isTail b

def consChar (n : Nat) (rest : Except Fault (List Char)) : Except Fault (List Char) :=
  rest.map (Char.ofNat n :: ·)

/-- Reads bytes as text, where the first of them has index `start`. -/
def decodeFrom (start : Nat) : List UInt8 → Except Fault (List Char)
  | [] => .ok []
  | a :: rest =>
    let a := a.toNat
    if a < 0x80 then consChar a (decodeFrom (start + 1) rest)
    else if 0xC2 ≤ a && a ≤ 0xDF then
      match rest with
      | [] => .error (.incomplete start)
      | b :: rest =>
        let b := b.toNat
        if isTail b then
          consChar ((a - 0xC0) * 64 + (b - 0x80)) (decodeFrom (start + 2) rest)
        else .error (.invalid 1 start)
    else if 0xE0 ≤ a && a ≤ 0xEF then
      match rest with
      | [] => .error (.incomplete start)
      | b :: rest =>
        let b := b.toNat
        if isSecond a b then
          match rest with
          | [] => .error (.incomplete start)
          | c :: rest =>
            let c := c.toNat
            if isTail c then
              consChar ((a - 0xE0) * 4096 + (b - 0x80) * 64 + (c - 0x80))
                (decodeFrom (start + 3) rest)
            else .error (.invalid 2 start)
        else .error (.invalid 1 start)
    else if 0xF0 ≤ a && a ≤ 0xF4 then
      match rest with
      | [] => .error (.incomplete start)
      | b :: rest =>
        let b := b.toNat
        if isSecond a b then
          match rest with
          | [] => .error (.incomplete start)
          | c :: rest =>
            let c := c.toNat
            if isTail c then
              match rest with
              | [] => .error (.incomplete start)
              | d :: rest =>
                let d := d.toNat
                if isTail d then
                  consChar
                    ((a - 0xF0) * 262144 + (b - 0x80) * 4096 + (c - 0x80) * 64 + (d - 0x80))
                    (decodeFrom (start + 4) rest)
                else .error (.invalid 3 start)
            else .error (.invalid 2 start)
        else .error (.invalid 1 start)
    else .error (.invalid 1 start)

def decode (bytes : List UInt8) : Except Fault (List Char) := decodeFrom 0 bytes

end RoomAudio.Text.Utf8
