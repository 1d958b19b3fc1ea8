import RoomAudio.Yaml.Token.Block
import RoomAudio.Yaml.Token.Property
import RoomAudio.Yaml.Token.Quoted

/-!
# From text to tokens

Tokens are cut from the front of the text, one after the other. Whether a scalar is the key of a
record shows only at the colon behind it; until then it is a candidate, and the tokens that mark a
key are put in front of it afterwards.

## Main definitions

* `Yaml.Scanner` — the tokens found so far, and what the next one depends on.
* `Yaml.Scanner.fetch` — finds the next token.
* `Yaml.scan` — the tokens of a text, and whether they are all there are.
-/

namespace RoomAudio.Yaml

/-- A token that may turn out to be a key. -/
structure Candidate where
  /-- It has to be one, since nothing else may stand in its column. -/
  required : Bool
  /-- How many tokens are in front of it. -/
  position : Nat
  mark : Mark
  deriving DecidableEq, Repr

def maxKeyLength : Nat := 1024

/-- Whether a candidate can no longer be a key when the place `m` is reached. -/
def Candidate.isStale (k : Candidate) (m : Mark) : Bool :=
  k.mark.line < m.line || k.mark.index + maxKeyLength < m.index

/-- A text on the way to its tokens. -/
structure Scanner where
  cursor : Cursor
  flowLevel : Nat := 0
  /-- The column of the innermost block, or -1 outside of all blocks. -/
  indent : Int := -1
  /-- The columns of the blocks around it, the innermost first. -/
  outer : List Int := []
  keyAllowed : Bool := true
  /-- The candidate of the innermost bracket. -/
  candidate : Option Candidate := none
  /-- The candidates of the brackets around it, the innermost first. -/
  outerCandidates : List (Option Candidate) := []
  /-- The tokens found, the last one first. -/
  found : List Token := []
  count : Nat := 0
  ended : Bool := false

namespace Scanner

def start (text : List Char) : Scanner := { cursor := ⟨text, {}⟩ }

def inFlow (s : Scanner) : Bool := 0 < s.flowLevel

def column (s : Scanner) : Nat := s.cursor.mark.column

def push (s : Scanner) (t : Token) : Scanner :=
  { s with found := t :: s.found, count := s.count + 1 }

/-- Adds a token behind the first `position` ones. -/
def insertAt (s : Scanner) (position : Nat) (t : Token) : Scanner :=
  { s with found := s.found.insertIdx (s.count - position) t, count := s.count + 1 }

def goto (s : Scanner) (c : Cursor) : Scanner := { s with cursor := c }

def skip (s : Scanner) (n : Nat) : Scanner := s.goto (s.cursor.skip n)

/-- Passes gaps and comments. A tab is no gap where a key could begin in a block. A byte order mark
at the beginning of a line is passed. -/
def gapFrom (flow allowed comment : Bool) : List Char → Mark → Cursor × Bool
  | [], m => (⟨[], m⟩, allowed)
  | '\r' :: '\n' :: rest, m => gapFrom flow (!flow || allowed) false rest (m.newline 2)
  | c :: rest, m =>
    if isBreak c then gapFrom flow (!flow || allowed) false rest (m.newline 1)
    else if comment then gapFrom flow allowed true rest m.next
    else if m.column == 0 && c == byteOrderMark then gapFrom flow allowed false rest m.next
    else if c == ' ' || (c == '\t' && (flow || !allowed)) then
      gapFrom flow allowed false rest m.next
    else if c == '#' then gapFrom flow allowed true rest m.next
    else (⟨c :: rest, m⟩, allowed)

/-- Passes gaps and comments. A new line may begin a key in a block. -/
def skipGap (s : Scanner) : Scanner :=
  let (c, allowed) := gapFrom s.inFlow s.keyAllowed false s.cursor.rest s.cursor.mark
  { s with cursor := c, keyAllowed := allowed }

/-- What is left of a candidate at the place `m`. A stale one that has to be a key is a fault. -/
def refresh (m : Mark) : Option Candidate → Option (Option Candidate)
  | none => some none
  | some k =>
    if k.isStale m then (if k.required then none else some none) else some (some k)

def dropStale (s : Scanner) : Option Scanner := do
  let candidate ← refresh s.cursor.mark s.candidate
  let outerCandidates ← s.outerCandidates.mapM (refresh s.cursor.mark)
  return { s with candidate, outerCandidates }

/-- Drops the candidate of the innermost bracket. One that has to be a key is a fault. -/
def dropCandidate (s : Scanner) : Option Scanner :=
  match s.candidate with
  | some k => if k.required then none else some { s with candidate := none }
  | none => some s

/-- Makes the next token a candidate, if a key may begin here. -/
def saveCandidate (s : Scanner) : Option Scanner :=
  if s.keyAllowed then do
    let s ← s.dropCandidate
    let k : Candidate :=
      { required := !s.inFlow && s.indent == s.column, position := s.count, mark := s.cursor.mark }
    return { s with candidate := some k }
  else some s

/-- The end tokens of the blocks that lie deeper than `column`. -/
def closeBlocks (column : Int) (s : Scanner) : List Int → Scanner
  | [] =>
    if column < s.indent then { s.push .blockEnd with indent := -1, outer := [] } else s
  | i :: outer =>
    if column < s.indent then
      closeBlocks column { s.push .blockEnd with indent := i, outer } outer
    else s

/-- Ends the blocks that lie deeper than `column`. Inside brackets there are none. -/
def unroll (s : Scanner) (column : Int) : Scanner :=
  if s.inFlow then s else closeBlocks column s s.outer

/-- Opens a block at `column`, if it lies deeper than the innermost one. Its start token is put
behind the first `position` tokens. -/
def roll (s : Scanner) (column position : Nat) (t : Token) : Scanner :=
  if !s.inFlow && s.indent < column then
    { s.insertAt position t with indent := column, outer := s.indent :: s.outer }
  else s

def fetchEnd (s : Scanner) : Option Scanner := do
  let s ← (s.unroll (-1)).dropCandidate
  return { s.push .streamEnd with keyAllowed := false, ended := true }

def fetchDirective (s : Scanner) : Option Scanner := do
  let s ← (s.unroll (-1)).dropCandidate
  let (t, c) ← readDirective (s.cursor.skip 1)
  return { (s.goto c).push t with keyAllowed := false }

def fetchMarker (s : Scanner) (t : Token) : Option Scanner := do
  let s ← (s.unroll (-1)).dropCandidate
  return { (s.skip 3).push t with keyAllowed := false }

def fetchOpening (s : Scanner) (t : Token) : Option Scanner := do
  let s ← s.saveCandidate
  return { (s.skip 1).push t with
    keyAllowed := true, flowLevel := s.flowLevel + 1, candidate := none
    outerCandidates := s.candidate :: s.outerCandidates }

def fetchClosing (s : Scanner) (t : Token) : Option Scanner := do
  let s ← s.dropCandidate
  let s := { (s.skip 1).push t with keyAllowed := false }
  match s.outerCandidates with
  | k :: outerCandidates =>
    return { s with flowLevel := s.flowLevel - 1, candidate := k, outerCandidates }
  | [] => return s

def fetchComma (s : Scanner) : Option Scanner := do
  let s ← s.dropCandidate
  return { (s.skip 1).push .flowEntry with keyAllowed := true }

def fetchEntry (s : Scanner) : Option Scanner := do
  if !s.inFlow && !s.keyAllowed then none
  let s ← (s.roll s.column s.count .blockListStart).dropCandidate
  return { (s.skip 1).push .blockEntry with keyAllowed := true }

def fetchKey (s : Scanner) : Option Scanner := do
  if !s.inFlow && !s.keyAllowed then none
  let s ← (s.roll s.column s.count .blockRecordStart).dropCandidate
  return { (s.skip 1).push .key with keyAllowed := !s.inFlow }

/-- The colon of a value. It makes a key of the candidate, if there is one. -/
def fetchValue (s : Scanner) : Option Scanner :=
  match s.candidate with
  | some k =>
    let s := (s.insertAt k.position .key).roll k.mark.column k.position .blockRecordStart
    some { (s.skip 1).push .value with candidate := none, keyAllowed := false }
  | none => do
    if !s.inFlow && !s.keyAllowed then none
    let s := s.roll s.column s.count .blockRecordStart
    return { (s.skip 1).push .value with keyAllowed := !s.inFlow }

def fetchName (s : Scanner) (t : List Char → Token) : Option Scanner := do
  let s ← s.saveCandidate
  let (name, c) ← readName (s.cursor.skip 1)
  return { (s.goto c).push (t name) with keyAllowed := false }

def fetchTag (s : Scanner) : Option Scanner := do
  let s ← s.saveCandidate
  let ((handle, suffix), c) ← readTag s.inFlow s.cursor
  return { (s.goto c).push (.tag handle suffix) with keyAllowed := false }

def fetchBlock (s : Scanner) (style : Style) : Option Scanner := do
  let s ← s.dropCandidate
  let (text, c) ← readBlock style s.indent (s.cursor.skip 1)
  return { (s.goto c).push (.scalar style text) with keyAllowed := true }

def fetchQuoted (s : Scanner) (style : Style) : Option Scanner := do
  let s ← s.saveCandidate
  let c := s.cursor.skip 1
  let (text, c) ← if style == .singleQuoted then readSingleQuoted c else readDoubleQuoted c
  return { (s.goto c).push (.scalar style text) with keyAllowed := false }

/-- A plain scalar. After it a key may begin only if it is followed by a line break. -/
def fetchPlain (s : Scanner) : Option Scanner := do
  let s ← s.saveCandidate
  let p ← readPlain s.inFlow (s.indent + 1) s.cursor
  return { (s.goto p.after).push (.scalar .plain p.text) with keyAllowed := p.broken }

def isIndicator (c : Char) : Bool :=
  ['-', '?', ':', ',', '[', ']', '\x7b', '\x7d', '#', '&', '*', '!', '|', '>', '\'', '"', '%',
    '@', '\x60'].contains c

/-- Whether a plain scalar begins with `c` in front of `rest`. -/
def startsPlain (flow : Bool) (c : Char) (rest : List Char) : Bool :=
  (!isIndicator c && !isGap c) ||
  (c == '-' && !(rest.head?.any isSpacing)) ||
  (!flow && (c == '?' || c == ':') && !startsGap rest)

def fetchFrom (s : Scanner) (c : Char) (rest : List Char) : Option Scanner :=
  if s.column == 0 && c == '%' then s.fetchDirective
  else if s.column == 0 && startsMarker (c :: rest) then
    s.fetchMarker (if c == '-' then .documentStart else .documentEnd)
  else if c == '[' then s.fetchOpening .flowListStart
  else if c == '\x7b' then s.fetchOpening .flowRecordStart
  else if c == ']' then s.fetchClosing .flowListEnd
  else if c == '\x7d' then s.fetchClosing .flowRecordEnd
  else if c == ',' then s.fetchComma
  else if c == '-' && startsGap rest then s.fetchEntry
  else if c == '?' && (s.inFlow || startsGap rest) then s.fetchKey
  else if c == ':' && (s.inFlow || startsGap rest) then s.fetchValue
  else if c == '*' then s.fetchName .alias
  else if c == '&' then s.fetchName .anchor
  else if c == '!' then s.fetchTag
  else if c == '|' && !s.inFlow then s.fetchBlock .literal
  else if c == '>' && !s.inFlow then s.fetchBlock .folded
  else if c == '\'' then s.fetchQuoted .singleQuoted
  else if c == '"' then s.fetchQuoted .doubleQuoted
  else if startsPlain s.inFlow c rest then s.fetchPlain
  else none

/-- Finds the next token, with the tokens that end blocks before it. -/
def fetch (s : Scanner) : Option Scanner := do
  let _ ← s.dropStale
  let s ← s.skipGap.dropStale
  let s := s.unroll s.column
  match s.cursor.rest with
  | [] => s.fetchEnd
  | c :: rest => s.fetchFrom c rest

/-- The candidates that are not settled: those that are not stale, and stale ones that have to be
keys. -/
def unsettled (s : Scanner) : List Candidate :=
  (s.candidate :: s.outerCandidates).reduceOption.filter fun k =>
    k.required || !k.isStale s.cursor.mark

/-- The tokens before the first candidate that is not settled. -/
def settled (s : Scanner) : List Token :=
  s.found.reverse.take ((s.unsettled.map Candidate.position).foldl min s.count)

/-- Finds all tokens. When there is a fault, only the settled ones count. -/
def run : Nat → Scanner → List Token × Bool
  | 0, s => (s.settled, false)
  | n + 1, s =>
    match s.fetch with
    | none => (s.settled, false)
    | some s => if s.ended then (s.found.reverse, true) else run n s

end Scanner

/-- The tokens of a text up to the first fault, and whether there is none. A character that is not
permitted spoils the text from the start. -/
def scan (text : List Char) : List Token × Bool :=
  if text.all isPermitted then (Scanner.start text).run (text.length + 2) else ([], false)

end RoomAudio.Yaml
