import RoomAudio.Format
import RoomAudio.Yaml.Node
import RoomAudio.Yaml.Scalar

/-!
# YAML as a data format

The readings of YAML trees. A reference is followed when its value is asked for, and how often this
may happen depends on the size of the document. A text is read from any scalar as it is written,
and an empty place is an empty list or record.

## Main definitions

* `Yaml.Reading` — readings count the references that they follow.
* `Yaml.format` — the readings.
* `Yaml.decode` — reads a record from a whole text.
-/

namespace RoomAudio.Yaml

/-- Readings count the references that they follow. -/
abbrev Reading := StateT Nat (Except Fault)

/-- How deep lists and records may be nested, the document being one of them. -/
def maxDepth : Nat := 128

/-- How often references may be followed for each event of a document. -/
def followsPerEvent : Nat := 100

def nullTag : List Char := "tag:yaml.org,2002:null".toList

def boolTag : List Char := "tag:yaml.org,2002:bool".toList

def intTag : List Char := "tag:yaml.org,2002:int".toList

def floatTag : List Char := "tag:yaml.org,2002:float".toList

def isLocalTag : Option (List Char) → Bool
  | some ('!' :: _) => true
  | _ => false

/-- Whether a scalar may write a value with the given tag: it is plain, or a literal block with
that tag. -/
def mayWrite (expected : List Char) (tag : Option (List Char)) : Style → Bool
  | .plain => true
  | .literal => tag == some expected
  | _ => false

def isWord64 (i : Int) : Bool := -Int.pow 2 63 ≤ i && i < Int.pow 2 64

/-- The outcome of looking at a scalar in full: it is a text, a value of another kind, or not what
it is said to be. -/
def textOfScalar (tag : Option (List Char)) (style : Style) (text : String) :
    Except Fault (Option String) :=
  let chars := text.toList
  let other (holds : Bool) : Except Fault (Option String) :=
    if holds then .ok none else .error .malformed
  match tag with
  | some tag =>
    if isLocalTag (some tag) then .error .malformed
    else if tag = boolTag then other (bool? chars).isSome
    else if tag = intTag then other ((integer? chars).any isWord64)
    else if tag = floatTag then other (isFloat chars)
    else if tag = nullTag then other (isNullWord chars)
    else .ok (some text)
  | none =>
    if style ≠ .plain then .ok (some text)
    else
      match Meaning.ofPlain chars with
      | .text => .ok (some text)
      | .int i => other (isWord64 i)
      | _ => .ok none

namespace Source

def follow (s : Source) : Node → Reading Node
  | .reference anchor => do
    let followed := (← get) + 1
    if followsPerEvent * s.size < followed then throw .malformed
    set followed
    return s.lookup anchor
  | node => return node

def text (s : Source) (node : Node) : Reading String := do
  match ← s.follow node with
  | .scalar _ _ text => return text
  | _ => throw .malformed

def int (s : Source) (node : Node) : Reading Int := do
  match ← s.follow node with
  | .scalar tag style text =>
    match (integer? text.toList).filter fun i => mayWrite intTag tag style && Text.isInt64 i with
    | some i => return i
    | none => throw .malformed
  | _ => throw .malformed

def bool (s : Source) (node : Node) : Reading Bool := do
  match ← s.follow node with
  | .scalar tag style text =>
    match (bool? text.toList).filter fun _ => mayWrite boolTag tag style with
    | some b => return b
    | none => throw .malformed
  | _ => throw .malformed

def optional (s : Source) (node : Node) : Reading (Option Node) := do
  let node ← s.follow node
  match node with
  | .scalar (some tag) .plain text =>
    if tag ≠ nullTag then return some node
    else if isNullWord text.toList then return none
    else throw .malformed
  | .scalar none .plain text =>
    if text.isEmpty || isNullWord text.toList then return none else return some node
  | .absent => return none
  | node => return some node

def isEmptyPlace : Node → Bool
  | .scalar _ .plain text => text.isEmpty
  | .absent => true
  | _ => false

def items (s : Source) (node : Node) : Reading (List Node) := do
  match ← s.follow node with
  | .list _ items => return items
  | node => if isEmptyPlace node then return [] else throw .malformed

def entries (s : Source) (node : Node) : Reading (List (Node × Node)) := do
  match ← s.follow node with
  | .record _ members => return members
  | node => if isEmptyPlace node then return [] else throw .malformed

/-- A value that nobody asks for. References in it are not followed. -/
def skip (node : Node) : Reading Unit :=
  if node.isWhole then return () else throw .malformed

/-- The text of a value, if it is one, where `depth` more lists and records may be opened. -/
def textOrOther (s : Source) : Nat → Node → Reading (Option String)
  | _, .scalar tag style text => textOfScalar tag style text
  | depth, node => do
    match ← s.follow node with
    | .scalar tag style text => textOfScalar tag style text
    | .list tag items =>
      if isLocalTag tag then throw .malformed
      match depth with
      | 0 => throw .malformed
      | depth + 1 =>
        for item in items do let _ ← textOrOther s depth item
        return none
    | .record tag members =>
      if isLocalTag tag then throw .malformed
      match depth with
      | 0 => throw .malformed
      | depth + 1 =>
        for (key, value) in members do
          let _ ← textOrOther s depth key
          let _ ← textOrOther s depth value
        return none
    | .absent => return none
    | _ => throw .malformed
termination_by structural depth => depth

end Source

def format (s : Source) : Format Node Reading where
  text := s.text
  int := s.int
  bool := s.bool
  optional := s.optional
  items := s.items
  entries := s.entries
  members := fun _ => s.entries
  skip := Source.skip
  textOrOther := s.textOrOther (maxDepth - 1)

/-- Reads a value from a text that must hold nothing else. A fault of the value is found before
what follows it. -/
def decode {α : Type} (read : Format Node Reading → Node → Reading α) (text : List Char) :
    Except Fault α := do
  let s := Source.ofText text
  let (a, _) ← (read (format s) s.root).run 0
  if s.whole then return a else throw .malformed

end RoomAudio.Yaml
