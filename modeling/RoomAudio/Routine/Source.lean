import RoomAudio.Json.Format
import RoomAudio.Routine.Problem
import RoomAudio.Routine.Record
import RoomAudio.Yaml.Format

/-!
# Sources of routines

A routine is authored as a file of bytes. Its text is JSON when the first character that is not
blank is an opening brace, and YAML otherwise.

## Main definitions

* `Document.ofChars` — the routine of a text without blank ends.
* `Document.parse` — the routine of a file.
-/

namespace RoomAudio.Document

/-- The routine that a text holds, where blank characters at its ends are taken off before. -/
def ofChars (text : List Char) : Except Problem Document :=
  match text with
  | [] => .error (.document .emptySource)
  | '\x7b' :: _ =>
    (Json.decode (read Json.format) text).mapError fun fault => .document (.badJson fault)
  | _ => (Yaml.decode read text).mapError fun fault => .document (.badYaml fault)

def parse (bytes : List UInt8) : Except Problem Document :=
  match Text.Utf8.decode bytes with
  | .error fault => .error (.document (.notUtf8 fault))
  | .ok text => ofChars (Text.trimChars text)

end RoomAudio.Document
