import RoomAudio.Yaml.Token

/-!
# From tokens to events

Events say where values begin and end. Values that are left out have events of their own, so that
every key has a value and every value has a key.

## Main definitions

* `Yaml.Event` — the events of a text.
* `Yaml.Grammar` — what is expected next, and what after it.
* `Yaml.Grammar.step` — the next event.
* `Yaml.eventsOf` — the events of a list of tokens, up to the first fault.
-/

namespace RoomAudio.Yaml

structure Properties where
  anchor : Option (List Char) := none
  tag : Option (List Char) := none
  deriving DecidableEq, Repr

inductive Event where
  | documentStart
  | documentEnd
  | streamEnd
  | alias (name : List Char)
  | scalar (properties : Properties) (style : Style) (text : List Char)
  | listStart (properties : Properties)
  | listEnd
  | recordStart (properties : Properties)
  | recordEnd
  deriving DecidableEq, Repr

/-- What may be expected next. -/
inductive Expected where
  | firstDocument
  | nextDocument
  | documentContent
  | documentEnd
  | blockNode
  | blockListFirst
  | blockListEntry
  | bareListEntry
  | blockRecordFirst
  | blockRecordKey
  | blockRecordValue
  | flowListFirst
  | flowListEntry
  | flowPairKey
  | flowPairValue
  | flowPairEnd
  | flowRecordFirst
  | flowRecordKey
  | flowRecordValue
  | flowRecordNoValue
  | nothing
  deriving DecidableEq, Repr

/-- The state of the grammar: the tokens to come, what is expected next, what is expected after
that, and the tag handles of the document. -/
structure Grammar where
  tokens : List Token
  expected : Expected := .firstDocument
  later : List Expected := []
  handles : List (List Char × List Char) := []

def defaultHandles : List (List Char × List Char) :=
  [(['!'], ['!']), (['!', '!'], "tag:yaml.org,2002:".toList)]

def emptyScalar : Event := .scalar {} .plain []

namespace Grammar

/-- An event and the state after it; there is none after a fault. -/
abbrev Step := Option (Event × Grammar)

def pass (g : Grammar) : Grammar := { g with tokens := g.tokens.drop 1 }

def expect (g : Grammar) (e : Expected) : Grammar := { g with expected := e }

def thereafter (g : Grammar) (e : Expected) : Grammar := { g with later := e :: g.later }

def resume (g : Grammar) : Grammar :=
  match g.later with
  | e :: later => { g with expected := e, later }
  | [] => { g with expected := .nothing }

def empty (g : Grammar) (e : Expected) : Step := some (emptyScalar, g.expect e)

def resolveTag (handles : List (List Char × List Char)) (handle suffix : List Char) :
    Option (List Char) :=
  if handle.isEmpty then some suffix
  else (handles.find? (·.1 == handle)).map fun h => h.2 ++ suffix

/-- Reads the anchor and the tag of a value, in either order. -/
def properties (g : Grammar) : Option (Properties × Grammar) :=
  match g.tokens with
  | .anchor name :: .tag handle suffix :: tokens => do
    let tag ← resolveTag g.handles handle suffix
    return ({ anchor := some name, tag := some tag }, { g with tokens })
  | .tag handle suffix :: .anchor name :: tokens => do
    let tag ← resolveTag g.handles handle suffix
    return ({ anchor := some name, tag := some tag }, { g with tokens })
  | .anchor name :: tokens => some ({ anchor := some name }, { g with tokens })
  | .tag handle suffix :: tokens => do
    let tag ← resolveTag g.handles handle suffix
    return ({ tag := some tag }, { g with tokens })
  | _ => some ({}, g)

/-- A scalar with the tag `!` has no tag. -/
def scalarProperties (p : Properties) : Properties :=
  if p.tag = some ['!'] then { p with tag := none } else p

/-- A value behind its properties. `block` tells whether blocks may begin here, and `bare` whether
the entries of a list may follow without a block of their own. -/
def value (g : Grammar) (p : Properties) (block bare : Bool) : Step :=
  match g.tokens with
  | .blockEntry :: _ =>
    if bare then some (.listStart p, g.expect .bareListEntry)
    else if p = {} then none
    else some (.scalar p .plain [], g.resume)
  | .scalar style text :: _ => some (.scalar (scalarProperties p) style text, g.pass.resume)
  | .flowListStart :: _ => some (.listStart p, g.expect .flowListFirst)
  | .flowRecordStart :: _ => some (.recordStart p, g.expect .flowRecordFirst)
  | .blockListStart :: _ =>
    if block then some (.listStart p, g.expect .blockListFirst)
    else if p = {} then none
    else some (.scalar p .plain [], g.resume)
  | .blockRecordStart :: _ =>
    if block then some (.recordStart p, g.expect .blockRecordFirst)
    else if p = {} then none
    else some (.scalar p .plain [], g.resume)
  | [] => none
  | _ =>
    if p = {} then none
    else some (.scalar p .plain [], g.resume)

def node (g : Grammar) (block bare : Bool) : Step :=
  match g.tokens with
  | .alias name :: _ => some (.alias name, g.pass.resume)
  | _ => do
    let (p, g) ← g.properties
    g.value p block bare

/-- Reads the directives in front of a document: whether a version was given, and the handles. -/
def directivesFrom (version : Bool) (handles : List (List Char × List Char)) :
    List Token → Option (List (List Char × List Char) × List Token)
  | .versionDirective major minor :: tokens =>
    if version || major ≠ 1 || (minor ≠ 1 && minor ≠ 2) then none
    else directivesFrom true handles tokens
  | .tagDirective handle start :: tokens =>
    if handles.any (·.1 == handle) then none
    else directivesFrom version (handles ++ [(handle, start)]) tokens
  | tokens => some (handles, tokens)

/-- A document that begins with its marker, possibly after directives. -/
def explicitDocument (g : Grammar) : Step := do
  let (handles, tokens) ← directivesFrom false [] g.tokens
  match tokens with
  | .documentStart :: tokens =>
    some (.documentStart,
      { tokens, expected := .documentContent, later := Expected.documentEnd :: g.later
        handles := handles ++ defaultHandles })
  | _ => none

def firstDocument (g : Grammar) : Step :=
  match g.tokens with
  | [] => none
  | .streamEnd :: _ => some (.streamEnd, g.pass.expect .nothing)
  | .versionDirective _ _ :: _ => g.explicitDocument
  | .tagDirective _ _ :: _ => g.explicitDocument
  | .documentStart :: _ => g.explicitDocument
  | _ =>
    some (.documentStart,
      { g with expected := .blockNode, later := Expected.documentEnd :: g.later
               handles := defaultHandles })

/-- A further document, after any number of end markers. -/
def nextDocument (g : Grammar) : Step :=
  let g := { g with tokens := g.tokens.dropWhile (· == Token.documentEnd) }
  match g.tokens with
  | [] => none
  | .streamEnd :: _ => some (.streamEnd, g.pass.expect .nothing)
  | _ => g.explicitDocument

/-- The content of a document after its marker; it may be left out. -/
def documentContent (g : Grammar) : Step :=
  match g.tokens with
  | .versionDirective _ _ :: _ => some (emptyScalar, g.resume)
  | .tagDirective _ _ :: _ => some (emptyScalar, g.resume)
  | .documentStart :: _ => some (emptyScalar, g.resume)
  | .documentEnd :: _ => some (emptyScalar, g.resume)
  | .streamEnd :: _ => some (emptyScalar, g.resume)
  | _ => g.node true false

def documentEnd (g : Grammar) : Step :=
  match g.tokens with
  | [] => none
  | .documentEnd :: _ => some (.documentEnd, g.pass.expect .nextDocument)
  | _ => some (.documentEnd, g.expect .nextDocument)

def blockListEntry (g : Grammar) : Step :=
  match g.tokens with
  | .blockEntry :: tokens =>
    let g := g.pass
    match tokens with
    | [] => none
    | .blockEntry :: _ => g.empty .blockListEntry
    | .blockEnd :: _ => g.empty .blockListEntry
    | _ => (g.thereafter .blockListEntry).node true false
  | .blockEnd :: _ => some (.listEnd, g.pass.resume)
  | _ => none

/-- An entry of a list without a block of its own, or its end. -/
def bareListEntry (g : Grammar) : Step :=
  match g.tokens with
  | .blockEntry :: tokens =>
    let g := g.pass
    match tokens with
    | [] => none
    | .blockEntry :: _ => g.empty .bareListEntry
    | .key :: _ => g.empty .bareListEntry
    | .value :: _ => g.empty .bareListEntry
    | .blockEnd :: _ => g.empty .bareListEntry
    | _ => (g.thereafter .bareListEntry).node true false
  | [] => none
  | _ => some (.listEnd, g.resume)

/-- A key or value of a record in a block, unless it is left out. -/
def blockRecordNode (g : Grammar) (next : Expected) : Step :=
  match g.tokens with
  | [] => none
  | .key :: _ => g.empty next
  | .value :: _ => g.empty next
  | .blockEnd :: _ => g.empty next
  | _ => (g.thereafter next).node true true

def blockRecordKey (g : Grammar) : Step :=
  match g.tokens with
  | .key :: _ => g.pass.blockRecordNode .blockRecordValue
  | .blockEnd :: _ => some (.recordEnd, g.pass.resume)
  | _ => none

def blockRecordValue (g : Grammar) : Step :=
  match g.tokens with
  | .value :: _ => g.pass.blockRecordNode .blockRecordKey
  | [] => none
  | _ => g.empty .blockRecordKey

/-- An entry of a list in brackets after its comma, or the end of the list. A single pair may stand
there without brackets of its own. -/
def flowListNode (g : Grammar) : Step :=
  match g.tokens with
  | .key :: _ => some (.recordStart {}, g.pass.expect .flowPairKey)
  | .flowListEnd :: _ => some (.listEnd, g.pass.resume)
  | _ => (g.thereafter .flowListEntry).node false false

def flowListEntry (g : Grammar) : Step :=
  match g.tokens with
  | .flowListEnd :: _ => some (.listEnd, g.pass.resume)
  | .flowEntry :: _ => g.pass.flowListNode
  | _ => none

/-- The key of a single pair. When it is left out, the token behind it is passed. -/
def flowPairKey (g : Grammar) : Step :=
  match g.tokens with
  | [] => none
  | .value :: _ => g.pass.empty .flowPairValue
  | .flowEntry :: _ => g.pass.empty .flowPairValue
  | .flowListEnd :: _ => g.pass.empty .flowPairValue
  | _ => (g.thereafter .flowPairValue).node false false

def flowPairValue (g : Grammar) : Step :=
  match g.tokens with
  | [] => none
  | .value :: tokens =>
    let g := g.pass
    match tokens with
    | [] => none
    | .flowEntry :: _ => g.empty .flowPairEnd
    | .flowListEnd :: _ => g.empty .flowPairEnd
    | _ => (g.thereafter .flowPairEnd).node false false
  | _ => g.empty .flowPairEnd

/-- A key of a record in brackets after its comma, or the end of the record. -/
def flowRecordNode (g : Grammar) : Step :=
  match g.tokens with
  | .key :: tokens =>
    let g := g.pass
    match tokens with
    | [] => none
    | .value :: _ => g.empty .flowRecordValue
    | .flowEntry :: _ => g.empty .flowRecordValue
    | .flowRecordEnd :: _ => g.empty .flowRecordValue
    | _ => (g.thereafter .flowRecordValue).node false false
  | .flowRecordEnd :: _ => some (.recordEnd, g.pass.resume)
  | _ => (g.thereafter .flowRecordNoValue).node false false

def flowRecordKey (g : Grammar) : Step :=
  match g.tokens with
  | .flowRecordEnd :: _ => some (.recordEnd, g.pass.resume)
  | .flowEntry :: _ => g.pass.flowRecordNode
  | _ => none

def flowRecordValue (g : Grammar) : Step :=
  match g.tokens with
  | [] => none
  | .value :: tokens =>
    let g := g.pass
    match tokens with
    | [] => none
    | .flowEntry :: _ => g.empty .flowRecordKey
    | .flowRecordEnd :: _ => g.empty .flowRecordKey
    | _ => (g.thereafter .flowRecordKey).node false false
  | _ => g.empty .flowRecordKey

def step (g : Grammar) : Step :=
  match g.expected with
  | .firstDocument => g.firstDocument
  | .nextDocument => g.nextDocument
  | .documentContent => g.documentContent
  | .documentEnd => g.documentEnd
  | .blockNode => g.node true false
  | .blockListFirst => g.pass.blockListEntry
  | .blockListEntry => g.blockListEntry
  | .bareListEntry => g.bareListEntry
  | .blockRecordFirst => g.pass.blockRecordKey
  | .blockRecordKey => g.blockRecordKey
  | .blockRecordValue => g.blockRecordValue
  | .flowListFirst => g.pass.flowListNode
  | .flowListEntry => g.flowListEntry
  | .flowPairKey => g.flowPairKey
  | .flowPairValue => g.flowPairValue
  | .flowPairEnd => some (.recordEnd, g.expect .flowListEntry)
  | .flowRecordFirst => g.pass.flowRecordNode
  | .flowRecordKey => g.flowRecordKey
  | .flowRecordValue => g.flowRecordValue
  | .flowRecordNoValue =>
    match g.tokens with
    | [] => none
    | _ => g.empty .flowRecordKey
  | .nothing => none

/-- The events up to the end of the text or the first fault, at most `limit` of them. -/
def run : Nat → Grammar → List Event
  | 0, _ => []
  | limit + 1, g =>
    match g.step with
    | none => []
    | some (e, g) => e :: run limit g

end Grammar

/-- The events of a list of tokens up to the first fault. Without a fault the last one is the end of
the text. -/
def eventsOf (tokens : List Token) : List Event :=
  ({ tokens } : Grammar).run (4 * tokens.length + 8)

end RoomAudio.Yaml
