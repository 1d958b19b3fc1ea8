/-!
# Plain data

The tree of plain values that is written as JSON or YAML. Records keep the order of their fields.
-/

namespace RoomAudio

inductive Data where
  | null
  | bool (b : Bool)
  | int (i : Int)
  | text (s : String)
  | list (items : List Data)
  | record (fields : List (String × Data))

namespace Data

def decimal : Int → List Char
  | .ofNat n => Nat.toDigits 10 n
  | .negSucc n => '-' :: Nat.toDigits 10 (n + 1)

def boolName : Bool → String
  | true => "true"
  | false => "false"

def texts (l : List String) : Data := .list (l.map .text)

def optionalField {α : Type} (name : String) (value : Option α) (write : α → Data) :
    List (String × Data) :=
  match value with
  | none => []
  | some a => [(name, write a)]

end Data

end RoomAudio
