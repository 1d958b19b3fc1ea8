/-!
# Places in a YAML text

What is left of a text together with the place that was reached, and the classes of characters
that YAML tells apart.

## Main definitions

* `Yaml.Mark` — index, line and column, each counted from zero.
* `Yaml.Cursor` — the rest of a text and the mark of its first character.
* `Yaml.isPermitted` — the characters a text may consist of.
-/

namespace RoomAudio.Yaml

structure Mark where
  index : Nat := 0
  line : Nat := 0
  column : Nat := 0
  deriving DecidableEq, Repr

namespace Mark

def next (m : Mark) : Mark := { m with index := m.index + 1, column := m.column + 1 }

/-- The place after several characters of the same line. -/
def advance (m : Mark) (n : Nat) : Mark :=
  { m with index := m.index + n, column := m.column + n }

def newline (m : Mark) (n : Nat) : Mark :=
  { index := m.index + n, line := m.line + 1, column := 0 }

end Mark

structure Cursor where
  rest : List Char
  mark : Mark := {}
  deriving DecidableEq, Repr

namespace Cursor

def skip (c : Cursor) (n : Nat) : Cursor :=
  { rest := c.rest.drop n, mark := c.mark.advance n }

end Cursor

def isPermitted (c : Char) : Bool :=
  let n := c.toNat
  n == 0x09 || n == 0x0A || n == 0x0D || (0x20 ≤ n && n ≤ 0x7E) || n == 0x85 ||
  (0xA0 ≤ n && n ≤ 0xD7FF) || (0xE000 ≤ n && n ≤ 0xFFFD) || 0x10000 ≤ n

def byteOrderMark : Char := '\ufeff'

def isSpacing (c : Char) : Bool := c == ' ' || c == '\t'

def isBreak (c : Char) : Bool :=
  c == '\n' || c == '\r' || c == '\u0085' || c == '\u2028' || c == '\u2029'

/-- The character that a line break stands for: the separators of lines and paragraphs stand for
themselves, every other one is a line feed. -/
def breakValue (c : Char) : Char :=
  if c == '\u2028' || c == '\u2029' then c else '\n'

def isGap (c : Char) : Bool := isSpacing c || isBreak c

/-- Whether a text is over or begins with a space, a tab or a line break. -/
def startsGap : List Char → Bool
  | [] => true
  | c :: _ => isGap c

/-- Whether a text is over or begins with a line break. -/
def startsBreak : List Char → Bool
  | [] => true
  | c :: _ => isBreak c

/-- Letters and digits of ASCII, the underscore and the hyphen. -/
def isWord (c : Char) : Bool := c.isAlphanum || c == '_' || c == '-'

/-- Whether a line consists of one of the two document markers, up to the first gap. -/
def startsMarker : List Char → Bool
  | '-' :: '-' :: '-' :: rest => startsGap rest
  | '.' :: '.' :: '.' :: rest => startsGap rest
  | _ => false

def skipSpacing : List Char → Mark → Cursor
  | c :: rest, m => if isSpacing c then skipSpacing rest m.next else ⟨c :: rest, m⟩
  | [], m => ⟨[], m⟩

def skipLine : List Char → Mark → Cursor
  | c :: rest, m => if isBreak c then ⟨c :: rest, m⟩ else skipLine rest m.next
  | [], m => ⟨[], m⟩

def skipBreak : List Char → Mark → Cursor
  | '\r' :: '\n' :: rest, m => ⟨rest, m.newline 2⟩
  | c :: rest, m => if isBreak c then ⟨rest, m.newline 1⟩ else ⟨c :: rest, m⟩
  | [], m => ⟨[], m⟩

/-- Passes spaces, a comment and the end of the line. Nothing else may stand there. -/
def skipLineEnd (rest : List Char) (m : Mark) : Option Cursor :=
  let c := skipSpacing rest m
  let c :=
    match c.rest with
    | '#' :: _ => skipLine c.rest c.mark
    | _ => c
  if startsBreak c.rest then some (skipBreak c.rest c.mark) else none

end RoomAudio.Yaml
