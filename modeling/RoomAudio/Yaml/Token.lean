/-!
# YAML tokens

## Main definitions

* `Yaml.Style` — the five ways to write a scalar.
* `Yaml.Token` — the tokens a YAML text consists of. Indentation is made explicit by the tokens
  that start and end blocks.
-/

namespace RoomAudio.Yaml

inductive Style where
  | plain | singleQuoted | doubleQuoted | literal | folded
  deriving DecidableEq, Repr

inductive Token where
  | versionDirective (major minor : Nat)
  | tagDirective (handle start : List Char)
  | documentStart
  | documentEnd
  | blockListStart
  | blockRecordStart
  | blockEnd
  | flowListStart
  | flowListEnd
  | flowRecordStart
  | flowRecordEnd
  | blockEntry
  | flowEntry
  | key
  | value
  | alias (name : List Char)
  | anchor (name : List Char)
  | tag (handle suffix : List Char)
  | scalar (style : Style) (text : List Char)
  | streamEnd
  deriving DecidableEq, Repr

end RoomAudio.Yaml
