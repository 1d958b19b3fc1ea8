import RoomAudio.Yaml.Cursor
import RoomAudio.Yaml.Token

/-!
# Block scalars

A scalar that consists of the indented lines after a header such as `|2-`. The header chooses
between keeping and folding line breaks, may fix the indentation, and says what becomes of the line
breaks at the end.

## Main definitions

* `Yaml.Chomping` — what becomes of the line breaks at the end.
* `Yaml.BlockHeader` — the header, read by `Yaml.readBlockHeader`.
* `Yaml.readBlock` — a block scalar after its first character.
-/

namespace RoomAudio.Yaml

/-- What becomes of the line breaks at the end of a block scalar. -/
inductive Chomping where
  /-- None is kept. -/
  | strip
  /-- The first one is kept. -/
  | clip
  /-- All are kept. -/
  | keep
  deriving DecidableEq, Repr

/-- The header of a block scalar. The indentation is relative to the block around it, and zero if
it has to be found out. -/
structure BlockHeader where
  chomping : Chomping := .clip
  indent : Nat := 0
  deriving DecidableEq, Repr

def chompingOf? (c : Char) : Option Chomping :=
  if c == '+' then some .keep else if c == '-' then some .strip else none

/-- An optional digit; zero is refused. -/
def readIndentDigit (c : Cursor) : Option (Nat × Cursor) :=
  match c.rest with
  | d :: _ =>
    if d == '0' then none
    else if d.isDigit then some (d.toNat - '0'.toNat, c.skip 1)
    else some (0, c)
  | [] => some (0, c)

def readChomping (c : Cursor) : Chomping × Cursor :=
  match c.rest with
  | d :: _ =>
    match chompingOf? d with
    | some chomping => (chomping, c.skip 1)
    | none => (.clip, c)
  | [] => (.clip, c)

/-- The header after its first character; its two indicators come in either order. -/
def readBlockHeader (c : Cursor) : Option (BlockHeader × Cursor) :=
  match c.rest with
  | d :: _ =>
    match chompingOf? d with
    | some chomping => do
      let (indent, c) ← readIndentDigit (c.skip 1)
      return (⟨chomping, indent⟩, c)
    | none => do
      let (indent, c) ← readIndentDigit c
      if indent = 0 then return ({}, c)
      else
        let (chomping, c) := readChomping c
        return (⟨chomping, indent⟩, c)
  | [] => some ({}, c)

/-- Blank lines and indentation in front of the first line of a block scalar: the line breaks in
reverse, the deepest column that spaces reach, and the place after them. `indent` is zero if the
indentation has to be found out. A tab must not stand in for indentation. -/
def leadingBreaks (indent deepest : Nat) (breaks : List Char) :
    List Char → Mark → Option (List Char × Nat × Cursor)
  | [], m => some (breaks, max deepest m.column, ⟨[], m⟩)
  | '\r' :: '\n' :: rest, m =>
    leadingBreaks indent (max deepest m.column) ('\n' :: breaks) rest (m.newline 2)
  | c :: rest, m =>
    let inside := indent == 0 || m.column < indent
    if c == ' ' && inside then leadingBreaks indent deepest breaks rest m.next
    else if c == '\t' && inside then none
    else if isBreak c then
      leadingBreaks indent (max deepest m.column) (breakValue c :: breaks) rest (m.newline 1)
    else some (breaks, max deepest m.column, ⟨c :: rest, m⟩)

/-- The lines of a block scalar read so far. Texts are held in reverse. -/
structure BlockLines where
  text : List Char := []
  /-- The line break of the last line. -/
  first : List Char := []
  /-- The blank lines after it. -/
  further : List Char := []
  /-- The last line begins with a space or tab. -/
  spaced : Bool := false

namespace BlockLines

/-- A further line begins, with a space or tab if `spaced`. When lines are folded, a single line
feed between two lines that begin with other characters reads as a space. -/
def beginLine (b : BlockLines) (folded spaced : Bool) : BlockLines :=
  let lead :=
    if folded && b.first == ['\n'] && !b.spaced && !spaced then
      if b.further.isEmpty then [' '] else []
    else b.first
  { text := b.further ++ lead ++ b.text, first := [], further := [], spaced }

def finish (b : BlockLines) : Chomping → List Char
  | .strip => b.text.reverse
  | .clip => (b.first ++ b.text).reverse
  | .keep => (b.further ++ b.first ++ b.text).reverse

end BlockLines

/-- Reads lines that are indented by `indent`. `inLine` tells whether the indentation of a line is
already passed. -/
def blockLines (folded : Bool) (indent : Nat) (b : BlockLines) (inLine : Bool) :
    List Char → Mark → Option (BlockLines × Cursor)
  | [], m => some (b, ⟨[], m⟩)
  | '\r' :: '\n' :: rest, m =>
    if inLine then blockLines folded indent { b with first := ['\n'] } false rest (m.newline 2)
    else
      blockLines folded indent { b with further := '\n' :: b.further } false rest (m.newline 2)
  | c :: rest, m =>
    if inLine then
      if isBreak c then
        blockLines folded indent { b with first := [breakValue c] } false rest (m.newline 1)
      else blockLines folded indent { b with text := c :: b.text } true rest m.next
    else if c == ' ' && m.column < indent then blockLines folded indent b false rest m.next
    else if c == '\t' && m.column < indent then none
    else if isBreak c then
      blockLines folded indent { b with further := breakValue c :: b.further } false rest
        (m.newline 1)
    else if m.column = indent then
      let b := b.beginLine folded (isSpacing c)
      blockLines folded indent { b with text := c :: b.text } true rest m.next
    else some (b, ⟨c :: rest, m⟩)

/-- A block scalar after its first character, inside a block of the given indentation. -/
def readBlock (style : Style) (blockIndent : Int) (c : Cursor) : Option (List Char × Cursor) := do
  let (header, c) ← readBlockHeader c
  let c ← skipLineEnd c.rest c.mark
  let fixed :=
    if header.indent = 0 then 0
    else if 0 ≤ blockIndent then blockIndent.toNat + header.indent
    else header.indent
  let (breaks, deepest, c) ← leadingBreaks fixed 0 [] c.rest c.mark
  let indent :=
    if fixed = 0 then max (max deepest (blockIndent + 1).toNat) 1 else fixed
  let (b, c) ← blockLines (style == .folded) indent { further := breaks } false c.rest c.mark
  return (b.finish header.chomping, c)

end RoomAudio.Yaml
