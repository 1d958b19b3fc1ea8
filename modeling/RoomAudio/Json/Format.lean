import RoomAudio.Format
import RoomAudio.Json.Tree

/-!
# JSON as a data format

The readings of JSON trees. A record may also be written as a list of its fields in their order.

## Main definitions

* `Json.format` — the readings.
* `Json.decode` — reads a record from a whole text.
-/

namespace RoomAudio.Json

def maxDepth : Nat := 128

namespace Tree

mutual

/-- Whether a value can be held in memory, where `depth` more lists and records may be opened:
texts are spelled, numbers are finite and nothing is nested too deep. -/
def isValue (depth : Nat) : Tree → Bool
  | .null => true
  | .bool _ => true
  | .number n => n.isFinite
  | .text s => s.isSome
  | .list items => 0 < depth && areValues (depth - 1) items
  | .record members => 0 < depth && membersValues (depth - 1) members
  | .cut => false
termination_by structural t => t

def areValues (depth : Nat) : List Tree → Bool
  | [] => true
  | t :: rest => isValue depth t && areValues depth rest
termination_by structural l => l

def membersValues (depth : Nat) : List (Option String × Tree) → Bool
  | [] => true
  | (name, t) :: rest => name.isSome && isValue depth t && membersValues depth rest
termination_by structural l => l

end

def text? : Tree → Except Fault String
  | .text (some s) => .ok s
  | _ => .error .malformed

def int? : Tree → Except Fault Int
  | .number n => match n.int? with
    | some i => .ok i
    | none => .error .malformed
  | _ => .error .malformed

def bool? : Tree → Except Fault Bool
  | .bool b => .ok b
  | _ => .error .malformed

/-- Anything but `null`. -/
def optional : Tree → Except Fault (Option Tree)
  | .null => .ok none
  | t => .ok (some t)

def items? : Tree → Except Fault (List Tree)
  | .list items => .ok items
  | _ => .error .malformed

def entries? : Tree → Except Fault (List (Tree × Tree))
  | .record members => .ok (members.map fun (name, t) => (.text name, t))
  | _ => .error .malformed

/-- The items of a list as members with the given names. An item without a name has a broken
name. -/
def named : List String → List Tree → List (Tree × Tree)
  | _, [] => []
  | [], t :: rest => (.cut, t) :: named [] rest
  | name :: names, t :: rest => (.text (some name), t) :: named names rest

/-- The members of a record, or of a list that gives the fields in their order. -/
def members? (names : List String) : Tree → Except Fault (List (Tree × Tree))
  | .list items => .ok (named names items)
  | t => entries? t

def skip (t : Tree) : Except Fault Unit :=
  if t.isWhole then .ok () else .error .malformed

/-- How many lists and records a field of a document may open. The document itself is one and the
last one counts against the limit. -/
def fieldDepth : Nat := maxDepth - 2

def textOrOther : Tree → Except Fault (Option String)
  | .text (some s) => .ok (some s)
  | t => if isValue fieldDepth t then .ok none else .error .malformed

end Tree

def format : Format Tree (Except Fault) where
  text := Tree.text?
  int := Tree.int?
  bool := Tree.bool?
  optional := Tree.optional
  items := Tree.items?
  entries := Tree.entries?
  members := Tree.members?
  skip := Tree.skip
  textOrOther := Tree.textOrOther

/-- Reads a value from a text that must hold nothing else. A fault of the value is found before
what follows it. -/
def decode {α : Type} (read : Tree → Except Fault α) (l : List Char) : Except Fault α := do
  let (tree, rest) := Tree.read l
  let a ← read tree
  match rest with
  | some rest => if (Tree.skipSpace rest).isEmpty then .ok a else .error .malformed
  | none => .error .malformed

end RoomAudio.Json
