import RoomAudio.Yaml.Cursor
import RoomAudio.Yaml.Scalar
import RoomAudio.Yaml.Token

/-!
# Writing texts as YAML scalars

A text is written plainly if it reads back as a text and nothing in it has a meaning of its own. A
text with line feeds is written as a literal block if possible. Otherwise it is put into single
quotes, or, with characters that have to be escaped, into double quotes.

## Main definitions

* `Yaml.styleOf` — how a text is written.
* `Yaml.writeText` — the written form of a text, up to the end of its line.
-/

namespace RoomAudio.Yaml

def isPrintable (c : Char) : Bool :=
  let n := c.toNat
  n == 0x0A || (0x20 ≤ n && n ≤ 0x7E) || (0xA0 ≤ n && n ≤ 0xD7FF) ||
  (0xE000 ≤ n && n ≤ 0xFFFD && c != byteOrderMark) || 0x10000 ≤ n

def hasNeighbours (p q : Char → Bool) : List Char → Bool
  | a :: b :: rest => (p a && q b) || hasNeighbours p q (b :: rest)
  | _ => false

/-- Characters that must not be the first one of a plain scalar. -/
def isLeadingIndicator (c : Char) : Bool :=
  ['#', ',', '[', ']', '\x7b', '\x7d', '&', '*', '!', '|', '>', '\'', '"', '%', '@',
    '\x60'].contains c

/-- Characters that must not be the first one of a plain scalar if a gap follows. -/
def isEntryIndicator (c : Char) : Bool := c == '-' || c == '?'

/-- Whether a character is followed by a gap somewhere, the end of the text being one. -/
def hasBeforeGap (c : Char) : List Char → Bool
  | [] => false
  | a :: rest => (a == c && startsGap rest) || hasBeforeGap c rest

def startsLikeMarker : List Char → Bool
  | '-' :: '-' :: '-' :: _ => true
  | '.' :: '.' :: '.' :: _ => true
  | _ => false

/-- Whether something in a text would be taken for structure. -/
def hasIndicator (l : List Char) : Bool :=
  startsLikeMarker l || hasBeforeGap ':' l || hasNeighbours isGap (· == '#') l ||
  match l with
  | [] => false
  | c :: rest => isLeadingIndicator c || (isEntryIndicator c && startsGap rest)

def hasOuterSpace (l : List Char) : Bool := l.head? == some ' ' || l.getLast? == some ' '

/-- Whether a text keeps its characters when it is written plainly. -/
def allowsPlain (l : List Char) : Bool :=
  l.all (fun c => isPrintable c && !isBreak c) && !hasOuterSpace l && !hasIndicator l

/-- Whether a text keeps its characters between single quotes. -/
def allowsSingleQuoted (l : List Char) : Bool :=
  l.all isPrintable && !hasNeighbours isBreak (· == ' ') l && !hasNeighbours (· == ' ') isBreak l

def allowsLiteral (l : List Char) : Bool :=
  l.all isPrintable && !hasNeighbours (· == ' ') isBreak l && l.getLast? != some ' '

def styleOf (l : List Char) : Style :=
  if l.contains '\n' then if allowsLiteral l then .literal else .doubleQuoted
  else if Meaning.ofPlain l = .text && !isZeroPadded (dropSign l) && allowsPlain l then .plain
  else if allowsSingleQuoted l then .singleQuoted
  else .doubleQuoted

/-- A number in hexadecimal notation with a fixed number of digits. -/
def hexDigits : Nat → Nat → List Char
  | 0, _ => []
  | width + 1, n => hexDigits width (n / 16) ++ [(Json.hexDigit (n % 16)).toUpper]

/-- The escape sequence of a character between double quotes. -/
def escape (c : Char) : List Char :=
  let n := c.toNat
  '\\' ::
    if n = 0x00 then ['0']
    else if n = 0x07 then ['a']
    else if n = 0x08 then ['b']
    else if n = 0x09 then ['t']
    else if n = 0x0A then ['n']
    else if n = 0x0B then ['v']
    else if n = 0x0C then ['f']
    else if n = 0x0D then ['r']
    else if n = 0x1B then ['e']
    else if c = '"' then ['"']
    else if c = '\\' then ['\\']
    else if n = 0x85 then ['N']
    else if n = 0x2028 then ['L']
    else if n = 0x2029 then ['P']
    else if n ≤ 0xFF then 'x' :: hexDigits 2 n
    else if n ≤ 0xFFFF then 'u' :: hexDigits 4 n
    else 'U' :: hexDigits 8 n

def writeDoubleQuotedChar (c : Char) : List Char :=
  if !isPrintable c || isBreak c || c = '"' || c = '\\' then escape c else [c]

def writeDoubleQuoted (l : List Char) : List Char := '"' :: l.flatMap writeDoubleQuotedChar ++ ['"']

def indentation (indent : Nat) : List Char := List.replicate indent ' '

/-- What stands between single quotes, and the closing one. A line that was begun by a line break
is indented. -/
def writeSingleQuotedFrom (indent : Nat) (fresh : Bool) : List Char → List Char
  | [] => (if fresh then indentation indent else []) ++ ['\'']
  | c :: rest =>
    if isBreak c then c :: writeSingleQuotedFrom indent true rest
    else if c = ' ' then c :: writeSingleQuotedFrom indent fresh rest
    else
      (if fresh then indentation indent else []) ++ (if c = '\'' then ['\'', '\''] else [c]) ++
        writeSingleQuotedFrom indent false rest

def writeSingleQuoted (indent : Nat) (l : List Char) : List Char :=
  '\'' :: writeSingleQuotedFrom indent false l

/-- Whether a text ends with a line break that would be lost in a literal block without a mark. -/
def keepsBreaks (l : List Char) : Bool :=
  match l.reverse with
  | [c] => isBreak c
  | c :: before :: _ => isBreak c && isBreak before
  | [] => false

def endsBreak (l : List Char) : Bool := l.getLast?.any isBreak

def indentStep : Nat := 2

/-- The first line of a literal block: the indentation where the text hides it, and what happens
with the line breaks at its end. -/
def literalHeader (l : List Char) : List Char :=
  '|' :: (if l.head?.any fun c => c == ' ' || isBreak c then Nat.toDigits 10 indentStep else []) ++
    if keepsBreaks l then ['+'] else if endsBreak l then [] else ['-']

def writeLiteralLines (indent : Nat) (fresh : Bool) : List Char → List Char
  | [] => if fresh then [] else ['\n']
  | c :: rest =>
    if isBreak c then c :: writeLiteralLines indent true rest
    else (if fresh then indentation indent else []) ++ c :: writeLiteralLines indent false rest

def writeLiteral (indent : Nat) (l : List Char) : List Char :=
  literalHeader l ++ '\n' :: writeLiteralLines indent true l

/-- The written form of a text together with the end of its line. Lines after the first one are
indented by `indent`. -/
def writeText (indent : Nat) (s : String) : List Char :=
  let l := s.toList
  match styleOf l with
  | .plain => l ++ ['\n']
  | .singleQuoted => writeSingleQuoted indent l ++ ['\n']
  | .doubleQuoted => writeDoubleQuoted l ++ ['\n']
  | .literal => writeLiteral indent l
  | .folded => writeLiteral indent l

end RoomAudio.Yaml
