import RoomAudio.Yaml.Event
import RoomAudio.Yaml.Token.Scan

/-!
# From events to trees

The first document of a text as a tree. Where the text breaks the grammar the tree has a leaf that
says so. References are kept as they are: what they refer to is looked up in the table of anchors
when somebody asks for it.

## Main definitions

* `Yaml.Node` — the tree of a document.
* `Yaml.Source` — a document together with its anchors.
* `Yaml.Source.ofText` — the first document of a text.
-/

namespace RoomAudio.Yaml

inductive Node where
  | scalar (tag : Option (List Char)) (style : Style) (text : String)
  | list (tag : Option (List Char)) (items : List Node)
  | record (tag : Option (List Char)) (members : List (Node × Node))
  | reference (anchor : Nat)
  /-- There is no document. -/
  | absent
  /-- The place where the text breaks the grammar. -/
  | cut

namespace Node

mutual

def isWhole : Node → Bool
  | .cut => false
  | .list _ items => areWhole items
  | .record _ members => membersWhole members
  | _ => true
termination_by structural n => n

def areWhole : List Node → Bool
  | [] => true
  | n :: rest => isWhole n && areWhole rest
termination_by structural l => l

def membersWhole : List (Node × Node) → Bool
  | [] => true
  | (key, value) :: rest => isWhole key && isWhole value && membersWhole rest
termination_by structural l => l

end

end Node

/-- An anchor: its number, how many events are in front of it, and its value. -/
structure Anchor where
  number : Nat
  position : Nat
  node : Node

/-- A list or record that is not closed yet. Its contents are held in reverse. -/
inductive Frame where
  | list (tag : Option (List Char)) (anchor : Option (Nat × Nat)) (items : List Node)
  | record (tag : Option (List Char)) (anchor : Option (Nat × Nat)) (members : List (Node × Node))
      (key : Option Node)

structure Builder where
  /-- The open lists and records, the innermost first. -/
  frames : List Frame := []
  root : Option Node := none
  /-- The names of the anchors and their numbers, the last one first. -/
  names : List (List Char × Nat) := []
  anchors : List Anchor := []
  size : Nat := 0

namespace Builder

def nameCount (b : Builder) : Nat := (b.names.map Prod.fst).eraseDups.length

/-- Notes the name of an anchor. Its number is how many names there were before. -/
def declare (b : Builder) : Option (List Char) → Option (Nat × Nat) × Builder
  | none => (none, b)
  | some name =>
    let number := b.nameCount
    (some (number, b.size), { b with names := (name, number) :: b.names })

def define (b : Builder) (anchor : Option (Nat × Nat)) (node : Node) : Builder :=
  match anchor with
  | none => b
  | some (number, position) => { b with anchors := ⟨number, position, node⟩ :: b.anchors }

def place (b : Builder) (node : Node) : Builder :=
  match b.frames with
  | [] => { b with root := some node }
  | .list tag anchor items :: frames =>
    { b with frames := .list tag anchor (node :: items) :: frames }
  | .record tag anchor members none :: frames =>
    { b with frames := .record tag anchor members (some node) :: frames }
  | .record tag anchor members (some key) :: frames =>
    { b with frames := .record tag anchor ((key, node) :: members) none :: frames }

def close (b : Builder) : Builder :=
  match b.frames with
  | [] => b
  | .list tag anchor items :: frames =>
    let node := Node.list tag items.reverse
    ({ b with frames }.define anchor node).place node
  | .record tag anchor members _ :: frames =>
    let node := Node.record tag members.reverse
    ({ b with frames }.define anchor node).place node

def count (b : Builder) : Builder := { b with size := b.size + 1 }

/-- Takes an event. A reference to an unknown name is a fault. -/
def take (b : Builder) : Event → Option Builder
  | .alias name =>
    (b.names.find? (·.1 == name)).map fun (_, number) => (b.place (.reference number)).count
  | .scalar p style text =>
    let node := Node.scalar p.tag style (String.ofList text)
    let (anchor, b) := b.declare p.anchor
    some ((b.define anchor node).place node).count
  | .listStart p =>
    let (anchor, b) := b.declare p.anchor
    some { b with frames := .list p.tag anchor [] :: b.frames }.count
  | .recordStart p =>
    let (anchor, b) := b.declare p.anchor
    some { b with frames := .record p.tag anchor [] none :: b.frames }.count
  | .listEnd => some b.close.count
  | .recordEnd => some b.close.count
  | .documentStart => some b
  | .documentEnd => some b
  | .streamEnd => some b

/-- Notes a break inside the innermost list or record and closes it. -/
def breakFrame (b : Builder) : Builder :=
  match b.frames with
  | .record _ _ _ none :: _ => ((b.place .cut).place .cut).close
  | [] => b
  | _ => (b.place .cut).close

def breakAll (b : Builder) : Builder :=
  match b.frames.length.repeat breakFrame b with
  | { root := none, names, anchors, size, .. } => { root := some .cut, names, anchors, size }
  | b => b

end Builder

structure Source where
  root : Node
  anchors : List Anchor
  size : Nat
  /-- The text holds nothing else and does not break the grammar. -/
  whole : Bool

namespace Source

def ofBuilder (b : Builder) (whole : Bool) : Source :=
  { root := b.root.getD .absent, anchors := b.anchors, size := max b.size 1, whole }

def build (b : Builder) : List Event → Source
  | [] => ofBuilder b.breakAll false
  | .streamEnd :: _ => ofBuilder b true
  | .documentEnd :: rest => ofBuilder b (rest == [.streamEnd])
  | e :: rest =>
    match b.take e with
    | none => ofBuilder b.breakAll false
    | some b => build b rest

def ofText (text : List Char) : Source := build {} (eventsOf (scan text).1)

/-- The value of an anchor. When a number was given several times, the last one counts. -/
def lookup (s : Source) (number : Nat) : Node :=
  match (s.anchors.filter (·.number == number)).foldl
      (fun best a =>
        match best with
        | none => some a
        | some (b : Anchor) => if b.position < a.position then some a else some b) none with
  | some a => a.node
  | none => .cut

end Source

end RoomAudio.Yaml
