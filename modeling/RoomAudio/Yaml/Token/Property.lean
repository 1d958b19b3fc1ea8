import RoomAudio.Json.Quoted
import RoomAudio.Yaml.Cursor
import RoomAudio.Yaml.Token

/-!
# Anchors, tags and directives

## Main definitions

* `Yaml.readName` — the name of an anchor or alias.
* `Yaml.readTag` — a tag: a handle and a suffix.
* `Yaml.readDirective` — a line that begins with a percent sign.
-/

namespace RoomAudio.Yaml

def readWord (c : Cursor) : List Char × Cursor :=
  let word := c.rest.takeWhile isWord
  (word, c.skip word.length)

def endsName : List Char → Bool
  | [] => true
  | c :: _ =>
    isGap c || c == '?' || c == ':' || c == ',' || c == ']' || c == '\x7d' || c == '%' ||
      c == '@' || c == '\x60'

def readName (c : Cursor) : Option (List Char × Cursor) :=
  let (name, c) := readWord c
  if name.isEmpty || !endsName c.rest then none else some (name, c)

/-- The handle of a tag: an exclamation mark, possibly with a word and another mark after it. In a
directive a handle with a word needs its second mark. -/
def readHandle (directive : Bool) (c : Cursor) : Option (List Char × Cursor) :=
  match c.rest with
  | '!' :: _ =>
    let (word, c) := readWord (c.skip 1)
    match c.rest with
    | '!' :: _ => some ('!' :: word ++ ['!'], c.skip 1)
    | _ => if directive && !word.isEmpty then none else some ('!' :: word, c)
  | _ => none

/-- The characters of tags. The last three are allowed between angle brackets and in directives
only. -/
def isUriChar (verbatim : Bool) (c : Char) : Bool :=
  isWord c || [';', '/', '?', ':', '@', '&', '=', '+', '$', '.', '%', '!', '~', '*', '\'', '(',
    ')'].contains c || (verbatim && (c == ',' || c == '[' || c == ']'))

/-- The first byte of an encoded character: how many bytes follow, and its part of the code. -/
def leadByte? (n : Nat) : Option (Nat × Nat) :=
  if n < 0x80 then some (0, n)
  else if 0xC0 ≤ n ∧ n < 0xE0 then some (1, n - 0xC0)
  else if 0xE0 ≤ n ∧ n < 0xF0 then some (2, n - 0xE0)
  else if 0xF0 ≤ n ∧ n < 0xF8 then some (3, n - 0xF0)
  else none

/-- Reads the characters of a tag. `missing` bytes of an encoded character are still to come, after
bytes of the value `code`. -/
def uriFrom (verbatim : Bool) (text : List Char) (missing code : Nat) :
    List Char → Mark → Option (List Char × Cursor)
  | [], m => if missing = 0 then some (text.reverse, ⟨[], m⟩) else none
  | '%' :: a :: b :: rest, m => do
    let byte := 16 * (← Json.hexValue? a) + (← Json.hexValue? b)
    if missing = 0 then
      let (missing, code) ← leadByte? byte
      if missing = 0 then uriFrom verbatim (Char.ofNat code :: text) 0 0 rest (m.advance 3)
      else uriFrom verbatim text missing code rest (m.advance 3)
    else if 0x80 ≤ byte ∧ byte < 0xC0 then
      let code := 64 * code + (byte - 0x80)
      if missing = 1 then uriFrom verbatim (Char.ofNat code :: text) 0 0 rest (m.advance 3)
      else uriFrom verbatim text (missing - 1) code rest (m.advance 3)
    else none
  | c :: rest, m =>
    if missing ≠ 0 then none
    else if isUriChar verbatim c then
      if c == '%' then none else uriFrom verbatim (c :: text) 0 0 rest m.next
    else some (text.reverse, ⟨c :: rest, m⟩)

/-- Reads the characters of a tag, of which there has to be one. -/
def readUri (verbatim : Bool) (c : Cursor) : Option (List Char × Cursor) := do
  let (text, c) ← uriFrom verbatim [] 0 0 c.rest c.mark
  if text.isEmpty then none else return (text, c)

/-- Whether a word between two exclamation marks, or two marks, make up a handle. -/
def isFullHandle (handle : List Char) : Bool :=
  1 < handle.length && handle.getLast? == some '!'

/-- The handle and the suffix of a tag, without the check of what follows. -/
def readTagParts (c : Cursor) : Option ((List Char × List Char) × Cursor) :=
  match c.rest with
  | '!' :: '<' :: _ => do
    let (suffix, c) ← readUri true (c.skip 2)
    match c.rest with
    | '>' :: _ => return (([], suffix), c.skip 1)
    | _ => none
  | _ => do
    let (handle, c) ← readHandle false c
    if isFullHandle handle then
      let (suffix, c) ← readUri false c
      return ((handle, suffix), c)
    else
      let (more, c) ← uriFrom false [] 0 0 c.rest c.mark
      let suffix := handle.drop 1 ++ more
      return (if suffix.isEmpty then ([], ['!']) else (['!'], suffix), c)

/-- A tag; a gap has to follow it, or a comma inside brackets. -/
def readTag (flow : Bool) (c : Cursor) : Option ((List Char × List Char) × Cursor) := do
  let (tag, c) ← readTagParts c
  if startsGap c.rest || (flow && c.rest.head? == some ',') then return (tag, c) else none

def maxVersionDigits : Nat := 9

def readVersionNumber (c : Cursor) : Option (Nat × Cursor) :=
  let digits := c.rest.takeWhile Char.isDigit
  if digits.isEmpty || maxVersionDigits < digits.length then none
  else some (digits.foldl (fun n d => 10 * n + (d.toNat - '0'.toNat)) 0, c.skip digits.length)

def readVersion (c : Cursor) : Option (Token × Cursor) := do
  let c := skipSpacing c.rest c.mark
  let (major, c) ← readVersionNumber c
  match c.rest with
  | '.' :: _ =>
    let (minor, c) ← readVersionNumber (c.skip 1)
    return (.versionDirective major minor, c)
  | _ => none

def readTagDirective (c : Cursor) : Option (Token × Cursor) := do
  let c := skipSpacing c.rest c.mark
  let (handle, c) ← readHandle true c
  match c.rest with
  | d :: _ => if !isSpacing d then none
  | [] => none
  let c := skipSpacing c.rest c.mark
  let (start, c) ← readUri true c
  if startsGap c.rest then return (.tagDirective handle start, c) else none

/-- A directive after its percent sign, with the end of its line. -/
def readDirective (c : Cursor) : Option (Token × Cursor) := do
  let (name, c) := readWord c
  if name.isEmpty || !startsGap c.rest then none
  let (token, c) ←
    if name = ['Y', 'A', 'M', 'L'] then readVersion c
    else if name = ['T', 'A', 'G'] then readTagDirective c
    else none
  let c ← skipLineEnd c.rest c.mark
  return (token, c)

end RoomAudio.Yaml
