import RoomAudio.Data
import RoomAudio.Yaml.Quoting

/-!
# Writing YAML

Plain data as a YAML document in block form. The fields of a record stand one below the other, the
items of a list below the field they belong to, and only empty lists and records have brackets.

## Main definitions

* `Yaml.print` — the document of a value.
-/

namespace RoomAudio.Yaml

mutual

/-- A value after the name of its field, up to the end of its last line. The field is indented by
`indent`. -/
def writeFieldValue (indent : Nat) : Data → List Char
  | .list (item :: items) => '\n' :: writeItems indent (item :: items)
  | .record (field :: fields) => '\n' :: writeFields (indent + indentStep) (field :: fields)
  | .null => " null\n".toList
  | .bool b => ' ' :: (Data.boolName b).toList ++ ['\n']
  | .int i => ' ' :: Data.decimal i ++ ['\n']
  | .text s => ' ' :: writeText (indent + indentStep) s
  | .list [] => " []\n".toList
  | .record [] => " \x7b\x7d\n".toList
termination_by structural d => d

/-- A value after the hyphen of an item, up to the end of its last line. The hyphen is indented by
`indent`. -/
def writeItemValue (indent : Nat) : Data → List Char
  | .list (item :: items) =>
    ' ' :: '-' ::
      writeItemValue (indent + indentStep) item ++ writeItems (indent + indentStep) items
  | .record ((name, value) :: fields) =>
    ' ' :: name.toList ++ ':' :: writeFieldValue (indent + indentStep) value ++
      writeFields (indent + indentStep) fields
  | .null => " null\n".toList
  | .bool b => ' ' :: (Data.boolName b).toList ++ ['\n']
  | .int i => ' ' :: Data.decimal i ++ ['\n']
  | .text s => ' ' :: writeText (indent + indentStep) s
  | .list [] => " []\n".toList
  | .record [] => " \x7b\x7d\n".toList
termination_by structural d => d

def writeItems (indent : Nat) : List Data → List Char
  | [] => []
  | item :: items =>
    indentation indent ++ '-' :: writeItemValue indent item ++ writeItems indent items
termination_by structural l => l

/-- The fields of a record. Their names are plain words. -/
def writeFields (indent : Nat) : List (String × Data) → List Char
  | [] => []
  | (name, value) :: fields =>
    indentation indent ++ name.toList ++ ':' :: writeFieldValue indent value ++
      writeFields indent fields
termination_by structural l => l

end

def writeRoot : Data → List Char
  | .record (field :: fields) => writeFields 0 (field :: fields)
  | .list (item :: items) => writeItems 0 (item :: items)
  | .text s => writeText indentStep s
  | d => (writeFieldValue 0 d).drop 1

/-- The document of a value. No end marker follows it, not even behind a block that keeps its line
breaks. -/
def print (d : Data) : String := String.ofList (writeRoot d)

end RoomAudio.Yaml
