import RoomAudio.Yaml.Cursor

/-!
# Plain scalars

A scalar without quotes ends at a comment, at an indicator, at a document marker, or at a line that
is indented too little. Inside it a single line break reads as a space and further ones are kept.

## Main definitions

* `Yaml.Folding` — spaces and line breaks seen since the last other character.
* `Yaml.readPlain` — the plain scalar at the front of a text.
-/

namespace RoomAudio.Yaml

/-- Spaces and line breaks between two parts of a scalar. Texts are held in reverse. -/
structure Folding where
  /-- The spaces before the first line break. -/
  spaces : List Char := []
  /-- A line break was seen. -/
  broken : Bool := false
  /-- The first line break, unless it was escaped. -/
  first : Option Char := none
  /-- The line breaks after the first one. -/
  further : List Char := []
  deriving DecidableEq, Repr

namespace Folding

/-- A space or tab is seen. After a line break it is indentation. -/
def space (f : Folding) (c : Char) : Folding :=
  if f.broken then f else { f with spaces := c :: f.spaces }

def lineBreak (f : Folding) (c : Char) : Folding :=
  if f.broken then { f with further := breakValue c :: f.further }
  else { spaces := [], broken := true, first := some (breakValue c) }

/-- What is read for the gap, in front of the text so far. A line feed alone reads as a space. -/
def join (f : Folding) (text : List Char) : List Char :=
  if f.broken then
    match f.first with
    | some '\n' => if f.further.isEmpty then ' ' :: text else f.further ++ text
    | some c => f.further ++ c :: text
    | none => f.further ++ text
  else f.spaces ++ text

end Folding

/-- A scalar, the place after it, and whether a line break was passed after its last character. -/
structure PlainScalar where
  text : List Char
  after : Cursor
  broken : Bool

def isFlowIndicator (c : Char) : Bool :=
  c == ',' || c == '[' || c == ']' || c == '\x7b' || c == '\x7d'

/-- Inside brackets a colon must not be followed directly by one of these. -/
def isMisplacedAfterColon : List Char → Bool
  | c :: _ => isFlowIndicator c || c == '?'
  | [] => false

/-- Continues a plain scalar. `flow` tells whether it stands inside brackets, `indent` is the
indentation its lines need otherwise, `text` is what was read of it in reverse, and `fresh` tells
that the character before was a gap. -/
def plainFrom (flow : Bool) (indent : Int) (text : List Char) (gap : Folding) (fresh : Bool) :
    List Char → Mark → Option PlainScalar
  | [], m => some ⟨text.reverse, ⟨[], m⟩, gap.broken⟩
  | '\r' :: '\n' :: rest, m =>
    plainFrom flow indent text (gap.lineBreak '\n') true rest (m.newline 2)
  | c :: rest, m =>
    if isBreak c then plainFrom flow indent text (gap.lineBreak c) true rest (m.newline 1)
    else if isSpacing c then
      if gap.broken && (m.column : Int) < indent && c == '\t' then none
      else plainFrom flow indent text (gap.space c) true rest m.next
    else if fresh && ((gap.broken && !flow && (m.column : Int) < indent) ||
        (m.column == 0 && startsMarker (c :: rest)) || c == '#') then
      some ⟨text.reverse, ⟨c :: rest, m⟩, gap.broken⟩
    else if flow && c == ':' && isMisplacedAfterColon rest then none
    else if (c == ':' && startsGap rest) || (flow && isFlowIndicator c) then
      some ⟨text.reverse, ⟨c :: rest, m⟩, gap.broken⟩
    else plainFrom flow indent (c :: gap.join text) {} false rest m.next

def readPlain (flow : Bool) (indent : Int) (c : Cursor) : Option PlainScalar :=
  plainFrom flow indent [] {} true c.rest c.mark

end RoomAudio.Yaml
