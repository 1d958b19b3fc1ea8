import RoomAudio.Data
import RoomAudio.Json.Quoted

/-!
# Writing JSON

Plain data as JSON text, on one line without blanks or on many lines with an indentation of two
spaces.

## Main definitions

* `Json.compact` — the form on one line.
* `Json.pretty` — the indented form. An empty list or record stays on its line.
-/

namespace RoomAudio.Json

mutual

def compactChars : Data → List Char
  | .null => ['n', 'u', 'l', 'l']
  | .bool b => (Data.boolName b).toList
  | .int i => Data.decimal i
  | .text s => quote s
  | .list [] => ['[', ']']
  | .list (item :: items) => '[' :: compactChars item ++ compactItems items
  | .record [] => ['{', '}']
  | .record ((name, value) :: fields) =>
    '{' :: quote name ++ ':' :: compactChars value ++ compactFields fields
termination_by structural d => d

/-- The items after the first one, and the end of their list. -/
def compactItems : List Data → List Char
  | [] => [']']
  | item :: items => ',' :: compactChars item ++ compactItems items
termination_by structural l => l

/-- The fields after the first one, and the end of their record. -/
def compactFields : List (String × Data) → List Char
  | [] => ['}']
  | (name, value) :: fields =>
    ',' :: quote name ++ ':' :: compactChars value ++ compactFields fields
termination_by structural l => l

end

def newline (depth : Nat) : List Char := '\n' :: List.replicate (2 * depth) ' '

mutual

/-- The characters of a value whose first line is indented `depth` times. -/
def prettyChars (depth : Nat) : Data → List Char
  | .null => ['n', 'u', 'l', 'l']
  | .bool b => (Data.boolName b).toList
  | .int i => Data.decimal i
  | .text s => quote s
  | .list [] => ['[', ']']
  | .list (item :: items) =>
    '[' :: newline (depth + 1) ++ prettyChars (depth + 1) item ++ prettyItems depth items
  | .record [] => ['{', '}']
  | .record ((name, value) :: fields) =>
    '{' :: newline (depth + 1) ++ quote name ++ ':' :: ' ' :: prettyChars (depth + 1) value ++
      prettyFields depth fields
termination_by structural d => d

/-- The items after the first one, and the end of their list. -/
def prettyItems (depth : Nat) : List Data → List Char
  | [] => newline depth ++ [']']
  | item :: items =>
    ',' :: newline (depth + 1) ++ prettyChars (depth + 1) item ++ prettyItems depth items
termination_by structural l => l

/-- The fields after the first one, and the end of their record. -/
def prettyFields (depth : Nat) : List (String × Data) → List Char
  | [] => newline depth ++ ['}']
  | (name, value) :: fields =>
    ',' :: newline (depth + 1) ++ quote name ++ ':' :: ' ' :: prettyChars (depth + 1) value ++
      prettyFields depth fields
termination_by structural l => l

end

def compact (d : Data) : String := String.ofList (compactChars d)

def pretty (d : Data) : String := String.ofList (prettyChars 0 d)

end RoomAudio.Json
