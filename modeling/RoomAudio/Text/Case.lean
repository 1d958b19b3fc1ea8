import RoomAudio.Text.Case.Table

/-!
# Letter case

Two ways to look past the case of letters: the full lower-case form of a text, in which the
Greek capital sigma becomes a final sigma at the end of a word, and equality up to the case of
the ASCII letters alone.

## Main definitions

* `Text.lowerChars`, `Text.lower` — the full lower-case form.
* `Text.sameUpToAsciiCase` — equality up to the case of `A` to `Z`.
-/

namespace RoomAudio.Text

namespace Case

def inRuns (runs : List (Nat × Nat)) (n : Nat) : Bool :=
  runs.any fun (first, last) => first ≤ n && n ≤ last

/-- The code point that a table of runs assigns to `n`, if any. -/
def lookup (n : Nat) : List (Nat × Nat × Nat × Int) → Option Nat
  | [] => none
  | (first, last, step, offset) :: runs =>
    if first ≤ n && n ≤ last && (n - first) % step == 0 then some (Int.toNat (n + offset))
    else lookup n runs

/-- Characters that are skipped when the neighbours of a letter are sought. -/
def isIgnorable (c : Char) : Bool := inRuns ignorableRuns c.toNat

def isCased (c : Char) : Bool := inRuns casedRuns c.toNat

/-- Whether the first character that is not ignorable exists and has a case. -/
def startsCased (l : List Char) : Bool :=
  match l.dropWhile isIgnorable with
  | [] => false
  | c :: _ => isCased c

end Case

/-- The lower-case form of one character by itself. The dotted capital I keeps its dot as a
combining character. -/
def lowerChar (c : Char) : List Char :=
  if c.toNat = 0x130 then ['i', '\u0307']
  else
    match Case.lookup c.toNat Case.lowerRuns with
    | some n => [Char.ofNat n]
    | none => [c]

def capitalSigma : Char := 'Σ'

/-- The lower-case form of `l`, where `before` holds the characters in front of it, nearest
first. A capital sigma that ends a word becomes a final sigma. -/
def lowerAfter (before : List Char) : List Char → List Char
  | [] => []
  | c :: rest =>
    (if c = capitalSigma then
      [if Case.startsCased before && !Case.startsCased rest then 'ς' else 'σ']
    else lowerChar c) ++ lowerAfter (c :: before) rest

def lowerChars (l : List Char) : List Char := lowerAfter [] l

def lower (s : String) : String := String.ofList (lowerChars s.toList)

def sameUpToAsciiCase (s t : String) : Bool :=
  s.toList.map Char.toLower == t.toList.map Char.toLower

def asciiLower (s : String) : String := String.ofList (s.toList.map Char.toLower)

def isAsciiPunctuation (c : Char) : Bool :=
  let n := c.toNat
  (0x21 ≤ n && n ≤ 0x2F) || (0x3A ≤ n && n ≤ 0x40) || (0x5B ≤ n && n ≤ 0x60) ||
  (0x7B ≤ n && n ≤ 0x7E)

end RoomAudio.Text
