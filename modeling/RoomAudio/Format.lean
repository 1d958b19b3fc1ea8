/-!
# Data formats

What a data format has to offer so that records can be read from its trees. Records are read in
the order of the text and the first fault ends the reading.

## Main definitions

* `Fault` — why a tree is not the record that was expected.
* `Format` — the readings that a format offers.
* `Format.fields` — reads the fields of a record one after the other.
* `Format.once` — reads a field that must not be repeated.
-/

namespace RoomAudio

inductive Fault where
  /-- The text is malformed, or a value is of the wrong kind. -/
  | malformed
  /-- The version of a document is there and is not a text. -/
  | versionNotText
  deriving DecidableEq, Repr

/-- The readings that a format with trees `ν` offers, in a monad `m` that can fail. -/
structure Format (ν : Type) (m : Type → Type) where
  text : ν → m String
  int : ν → m Int
  bool : ν → m Bool
  optional : ν → m (Option ν)
  items : ν → m (List ν)
  /-- The entries of a table whose names are not known beforehand. -/
  entries : ν → m (List (ν × ν))
  /-- The members of a record with the given field names. -/
  members : List String → ν → m (List (ν × ν))
  /-- A value that nobody asks for; it has to be well formed. -/
  skip : ν → m Unit
  /-- The text of a value, if it is one, where values of other kinds are read in full. -/
  textOrOther : ν → m (Option String)

namespace Format

variable {ν : Type} {m : Type → Type} [Monad m] [MonadExceptOf Fault m]

/-- Reads the fields of a record in order. What was read so far goes through `step` together with
the name and the value of the next field. -/
def fields {δ : Type} (F : Format ν m) (names : List String) (step : δ → String → ν → m δ)
    (start : δ) (node : ν) : m δ := do
  let members ← F.members names node
  members.foldlM (fun draft member => do step draft (← F.text member.1) member.2) start

/-- Reads a field, unless it was read before. -/
def once {α : Type} (before : Option α) (read : m α) : m (Option α) :=
  if before.isSome then throw .malformed else do return some (← read)

def option {α : Type} (F : Format ν m) (read : ν → m α) (node : ν) : m (Option α) := do
  match ← F.optional node with
  | none => return none
  | some node => return some (← read node)

def list {α : Type} (F : Format ν m) (read : ν → m α) (node : ν) : m (List α) := do
  (← F.items node).mapM read

def version (F : Format ν m) (node : ν) : m String := do
  match ← F.textOrOther node with
  | some s => return s
  | none => throw .versionNotText

end Format

end RoomAudio
