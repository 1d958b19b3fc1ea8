import RoomAudio.Routine.Preset

/-!
# Command lines

What a user can ask the program for. A command line goes down a tree of commands; at each of them
there are options with a value, flags, and words that have a meaning by their place. Options and
flags are given at most once for each command, and the option `--config` is known to all of them.

## Main definitions

* `Request` — what the program is asked for.
* `Request.parse` — the request of a command line.
-/

namespace RoomAudio

inductive ConfigRequest where
  | path
  | overview (json : Bool)
  | get (key : String)
  | set (key value : String)
  | unset (key : String)
  deriving DecidableEq, Repr

inductive Action where
  | validate (file : String) (json : Bool)
  | plan (file : String) (json : Bool)
  /-- Carry out a routine, or show what would be carried out. -/
  | run (file : String) (dryRun json : Bool)
  | init (preset : String) (name : Option String) (form : Notation)
  | config (request : ConfigRequest)
  deriving DecidableEq, Repr

inductive Request where
  | help
  | version
  /-- Do something, with the given settings file if there is one. -/
  | act (settingsFile : Option String) (action : Action)
  deriving DecidableEq, Repr

namespace Arguments

structure Grammar where
  /-- The names of options with a value. -/
  options : List String := []
  /-- The letters that options can be called by. -/
  letters : List (Char × String) := []
  flags : List String := []
  commands : List String := []
  /-- How many words have a meaning by their place. -/
  words : Nat := 0
  tellsVersion : Bool := false

structure Given where
  options : List (String × String) := []
  flags : List String := []
  words : List String := []

inductive Stop where
  | misuse
  | help
  | version
  deriving DecidableEq, Repr

namespace Given

def addOption (g : Given) (name value : String) : Except Stop Given :=
  if (g.options.lookup name).isSome then .error .misuse
  else .ok { g with options := (name, value) :: g.options }

def addFlag (g : Given) (name : String) : Except Stop Given :=
  if g.flags.contains name then .error .misuse else .ok { g with flags := name :: g.flags }

def addWord (grammar : Grammar) (g : Given) (word : String) : Except Stop Given :=
  if g.words.length < grammar.words then .ok { g with words := g.words ++ [word] }
  else .error .misuse

def addWords (grammar : Grammar) (g : Given) (words : List String) : Except Stop Given :=
  words.foldlM (addWord grammar) g

end Given

inductive Kind where
  /-- Only words follow. -/
  | escape
  /-- A long name, with a value after an equals sign if there is one. -/
  | long (name : String) (value : Option String)
  | short (letters : List Char)
  | word
  deriving DecidableEq, Repr

def kindOf (argument : String) : Kind :=
  match argument.toList with
  | ['-', '-'] => .escape
  | '-' :: '-' :: rest =>
    match rest.span (· != '=') with
    | (name, []) => .long (String.ofList name) none
    | (name, _ :: value) => .long (String.ofList name) (some (String.ofList value))
  | ['-'] => .word
  | '-' :: letters => .short letters
  | _ => .word

/-- The option of a group of letters, with the value that stands in the group. -/
def optionOfLetters (grammar : Grammar) : List Char → Except Stop (String × Option String)
  | [] => .error .misuse
  | c :: rest =>
    if c = 'h' then .error .help
    else if c = 'V' && grammar.tellsVersion then .error .version
    else
      match grammar.letters.lookup c, rest with
      | none, _ => .error .misuse
      | some name, [] => .ok (name, none)
      | some name, '=' :: value => .ok (name, some (String.ofList value))
      | some name, value => .ok (name, some (String.ofList value))

inductive Item where
  /-- An option, with the value that stands in the same argument. -/
  | option (name : String) (value : Option String)
  | flag (name : String)
  | command (name : String)
  | word
  | escape
  deriving DecidableEq, Repr

def itemOf (grammar : Grammar) (argument : String) : Except Stop Item :=
  match kindOf argument with
  | .escape => .ok .escape
  | .long name value =>
    if grammar.options.contains name then .ok (.option name value)
    else if value.isSome then .error .misuse
    else if grammar.flags.contains name then .ok (.flag name)
    else if name = "help" then .error .help
    else if name = "version" && grammar.tellsVersion then .error .version
    else .error .misuse
  | .short letters => (optionOfLetters grammar letters).map fun o => .option o.1 o.2
  | .word =>
    if grammar.commands.contains argument then .ok (.command argument)
    else if !grammar.commands.isEmpty then
      .error (if argument = "help" then .help else .misuse)
    else .ok .word

/-- Reads the arguments of a command, up to the name of a command below it. That name is given
together with the arguments after it. -/
def read (grammar : Grammar) (g : Given) :
    List String → Except Stop (Given × Option (String × List String))
  | [] => .ok (g, none)
  | argument :: rest => do
    match ← itemOf grammar argument with
    | .escape => return (← g.addWords grammar rest, none)
    | .option name (some value) => read grammar (← g.addOption name value) rest
    | .option name none =>
      match rest with
      | [] => throw .misuse
      | value :: rest =>
        if kindOf value = .word then read grammar (← g.addOption name value) rest
        else throw .misuse
    | .flag name => read grammar (← g.addFlag name) rest
    | .command name => return (g, some (name, rest))
    | .word => read grammar (← g.addWord grammar argument) rest

def top : Grammar where
  options := ["config"]
  commands := ["validate", "plan", "run", "init", "config"]
  tellsVersion := true

def routine (flags : List String) : Grammar where
  options := ["config", "file"]
  letters := [('f', "file")]
  flags := "json" :: flags

def starter : Grammar where
  options := ["config", "preset", "name"]
  flags := ["json"]

def settings : Grammar where
  options := ["config"]
  commands := ["path", "show", "get", "set", "unset"]

def setting (words : Nat) (flags : List String) : Grammar where
  options := ["config"]
  flags
  words

def readLast (grammar : Grammar) (arguments : List String) : Except Stop Given :=
  (read grammar {} arguments).map Prod.fst

def required (g : Given) (name : String) : Except Stop String :=
  match g.options.lookup name with
  | some value => .ok value
  | none => .error .misuse

/-- The settings file that a command was given, or else the one that was given before. -/
def settingsFile (g : Given) (before : Option String) : Option String :=
  (g.options.lookup "config").or before

def readSetting (before : Option String) (command : String) (arguments : List String) :
    Except Stop Request := do
  let act (g : Given) (request : ConfigRequest) : Request :=
    .act (settingsFile g before) (.config request)
  if command = "path" then
    let g ← readLast (setting 0 []) arguments
    return act g .path
  else if command = "show" then
    let g ← readLast (setting 0 ["json"]) arguments
    return act g (.overview (g.flags.contains "json"))
  else if command = "set" then
    let g ← readLast (setting 2 []) arguments
    match g.words with
    | [key, value] => return act g (.set key value)
    | _ => throw .misuse
  else
    let g ← readLast (setting 1 []) arguments
    match g.words with
    | [key] => return act g (if command = "get" then .get key else .unset key)
    | _ => throw .misuse

def readCommand (before : Option String) (command : String) (arguments : List String) :
    Except Stop Request := do
  if command = "config" then
    match ← read settings {} arguments with
    | (_, none) => throw .misuse
    | (g, some (command, rest)) => readSetting (settingsFile g before) command rest
  else if command = "init" then
    let g ← readLast starter arguments
    let preset ← required g "preset"
    if !Preset.names.contains preset then throw .misuse
    return .act (settingsFile g before)
      (.init preset (g.options.lookup "name") (if g.flags.contains "json" then .json else .yaml))
  else
    let g ← readLast (routine (if command = "run" then ["dry-run"] else [])) arguments
    let file ← required g "file"
    let json := g.flags.contains "json"
    return .act (settingsFile g before)
      (if command = "validate" then .validate file json
      else if command = "plan" then .plan file json
      else .run file (g.flags.contains "dry-run") json)

def readAll (arguments : List String) : Except Stop Request := do
  match ← read top {} arguments with
  | (_, none) => throw .misuse
  | (g, some (command, rest)) => readCommand (settingsFile g none) command rest

end Arguments

/-- The request of a command line. There is none if it is misused. -/
def Request.parse (arguments : List String) : Option Request :=
  match Arguments.readAll arguments with
  | .ok request => some request
  | .error .help => some .help
  | .error .version => some .version
  | .error .misuse => none

end RoomAudio
