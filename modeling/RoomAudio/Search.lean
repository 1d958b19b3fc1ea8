import RoomAudio.Text.Blank
import RoomAudio.Text.Case

/-!
# Searching by name

How well a query fits a name. The words of the query have to occur in the name one after the other,
their characters in order but not necessarily side by side, and the case of letters does not matter.

## Main definitions

* `Search.occurrences?` — where the characters of a word occur, each as early as possible.
* `Search.score` — how well a query fits a name, if it does.
* `Search.best?` — the candidate that fits best.
-/

namespace RoomAudio.Search

/-- What a character adds for every character of the run of neighbours that it ends. -/
def runBonus : Int := 6

def boundaryBonus : Int := 10

def startBonus : Int := 30

/-- What a word adds at the very beginning of a name; it is one less with every character in front
of it. -/
def earlyBonus : Int := 20

/-- The part of a name that lies behind the last occurrence, and the index where it begins. -/
structure Remainder where
  chars : List Char
  index : Nat
  deriving DecidableEq, Repr

/-- The indices in `l` of the characters of a word, each as early as possible, where the first
character of `l` has the index `i`. -/
def occurrences? : List Char → List Char → Nat → Option (List Nat × Remainder)
  | [], l, i => some ([], ⟨l, i⟩)
  | _ :: _, [], _ => none
  | c :: word, a :: l, i =>
    if a = c then (occurrences? word l (i + 1)).map fun (indices, rest) => (i :: indices, rest)
    else occurrences? (c :: word) l (i + 1)

/-- The indices of the characters of several words, each word behind the one before it. -/
def allOccurrences? : List (List Char) → Remainder → Option (List (List Nat))
  | [], _ => some []
  | word :: words, r => do
    let (indices, r) ← occurrences? word r.chars r.index
    return indices :: (← allOccurrences? words r)

def isSeparator (c : Char) : Bool := Text.isBlank c || Text.isAsciiPunctuation c

def isBoundary (name : List Char) : Nat → Bool
  | 0 => true
  | i + 1 => name[i]?.any isSeparator

/-- What the characters at the given indices add. The character before them, if any, had the index
`last` and ended a run of the given length. Characters that are passed over in between cost one
half each. -/
def spread (name : List Char) (last : Option (Nat × Nat)) : List Nat → Int
  | [] => 0
  | i :: indices =>
    let (run, cost) :=
      match last with
      | none => (1, 0)
      | some (before, run) => if i = before + 1 then (run + 1, 0) else (1, (i - before - 1) / 2)
    runBonus * run - cost + (if isBoundary name i then boundaryBonus else 0) +
      spread name (some (i, run)) indices

/-- What a word adds whose characters occur at the given indices. -/
def wordScore (name word : List Char) (indices : List Nat) : Int :=
  spread name none indices + (if word.isPrefixOf name then startBonus else 0) +
    match indices with
    | [] => 0
    | first :: _ => max (earlyBonus - first) 0

def wordsScore (name : List Char) : List (List Char) → List (List Nat) → Int
  | word :: words, indices :: rest => wordScore name word indices + wordsScore name words rest
  | _, _ => 0

/-- How well a query fits a name; nothing if it does not fit. Long names lose a little. -/
def score (name query : String) : Option Int :=
  let words := (Text.words query).map Text.lowerChars
  if words.isEmpty then some 0
  else
    let chars := Text.lowerChars name.toList
    (allOccurrences? words ⟨chars, 0⟩).map fun indices =>
      wordsScore chars words indices - (chars.length / 8 : Nat)

/-- The better one of two candidates with scores; the earlier one if they are equal. -/
def better {α : Type} (best : Option (α × Int)) (next : α × Int) : Option (α × Int) :=
  match best with
  | none => some next
  | some best => if best.2 < next.2 then some next else some best

/-- The candidate with the highest score, the first one of several. -/
def highest? {α : Type} (label : α → String) (candidates : List α) (query : String) : Option α :=
  (candidates.filterMap fun a => (score (label a) query).map fun n => (a, n)).foldl better none
    |>.map Prod.fst

/-- The candidate that fits best. A candidate of just the wanted name comes first; the case of
ASCII letters does not matter for it. When no candidate fits, the first one is taken. -/
def best? {α : Type} (label : α → String) (candidates : List α) (query : String) : Option α :=
  let wanted := Text.trim query
  match candidates.find? fun a => Text.sameUpToAsciiCase (Text.trim (label a)) wanted with
  | some a => some a
  | none =>
    match highest? label candidates wanted with
    | some a => some a
    | none => candidates.head?

end RoomAudio.Search
