import RoomAudio.Data
import RoomAudio.Routine.Validation

/-!
# Resolution

From authored steps to the parameters they are carried out with. Defaults come in two layers: what
the routine leaves open is taken from the settings.

## Main definitions

* `Defaults.resolve` — the two layers as one.
* `Parameters` — what a step is carried out with.
* `Step.resolve`, `resolveSteps` — the parameters of steps.
-/

namespace RoomAudio

structure ResolvedDefaults where
  backend : Option Backend := none
  rooms : List String := []
  volume : Option Nat := none
  shuffle : Option Bool := none
  deriving DecidableEq, Repr

namespace ResolvedDefaults

def effectiveBackend (d : ResolvedDefaults) : Backend := d.backend.getD .airplay

def toData (d : ResolvedDefaults) : Data :=
  .record <|
    Data.optionalField "backend" d.backend (fun b => .text b.name) ++
    ("rooms", Data.texts d.rooms) ::
    (Data.optionalField "volume" d.volume (fun (v : Nat) => .int v) ++
    Data.optionalField "shuffle" d.shuffle .bool)

end ResolvedDefaults

def byte? (i : Int) : Option Nat :=
  if 0 ≤ i ∧ i < 256 then some i.toNat else none

def Defaults.resolve (routine : Option Defaults) (settings : Defaults) : ResolvedDefaults :=
  let routine := routine.getD {}
  { backend := ([routine.backend, settings.backend].find? (!Text.blank ·)).bind Backend.ofName?
    rooms := if routine.rooms.isEmpty then settings.rooms else routine.rooms
    volume := (routine.volume <|> settings.volume).bind byte?
    shuffle := routine.shuffle <|> settings.shuffle }

inductive Parameters where
  | outputs (backend : Backend) (rooms : List String)
  | play (backend : Backend) (rooms : List String) (playlistId query : Option String)
      (level : Option Nat) (shuffle : Option Bool)
  | volume (backend : Backend) (rooms : List String) (value : Nat)
  | wait (state : PlaybackState) (timeout : String) (timeoutMs : Nat)
  | transport (action : TransportAction)
  deriving DecidableEq, Repr

def Parameters.toData : Parameters → Data
  | .outputs backend rooms =>
    .record [("backend", .text backend.name), ("rooms", Data.texts rooms)]
  | .play backend rooms playlistId query level shuffle =>
    .record <| ("backend", .text backend.name) :: ("rooms", Data.texts rooms) ::
      (Data.optionalField "playlistId" playlistId .text ++
      Data.optionalField "query" query .text ++
      Data.optionalField "volume" level (fun (v : Nat) => .int v) ++
      Data.optionalField "shuffle" shuffle .bool)
  | .volume backend rooms value =>
    .record [("backend", .text backend.name), ("rooms", Data.texts rooms), ("value", .int value)]
  | .wait state timeout timeoutMs =>
    .record [("state", .text state.name), ("timeout", .text timeout),
      ("timeoutMs", .int timeoutMs)]
  | .transport action => .record [("action", .text action.name)]

def given? (value : Option String) : Option String :=
  (value.map Text.trim).filter (!·.isEmpty)

def Step.resolve (defaults : ResolvedDefaults) (path : Path) : Step → Except Problem Parameters
  | .outSet rooms => .ok (.outputs defaults.effectiveBackend rooms)
  | .play query playlistId =>
    .ok (.play defaults.effectiveBackend defaults.rooms (given? playlistId) (given? query)
      defaults.volume defaults.shuffle)
  | .volumeSet value rooms =>
    match (value.bind byte?).filter (· ≤ maxVolume) with
    | none => .error ⟨path ++ [.field "value"], .noVolume⟩
    | some value =>
      let own := rooms.getD []
      .ok (.volume defaults.effectiveBackend (if own.isEmpty then defaults.rooms else own) value)
  | .wait state timeout =>
    match PlaybackState.ofName? state with
    | none => .error ⟨path ++ [.field "state"], .unsupportedState state⟩
    | some parsed =>
      match parseWaitTimeout timeout with
      | .error error => .error ⟨path ++ [.field "timeout"], .timeout error⟩
      | .ok nanos => .ok (.wait parsed (Text.trim timeout) (nanos / 1000000))
  | .transport action =>
    match TransportAction.ofName? action with
    | none => .error ⟨path ++ [.field "action"], .unsupportedAction action⟩
    | some action => .ok (.transport action)
  | .unsupported kind => .error ⟨path ++ [.field "type"], .unsupportedKind kind⟩

structure ResolvedStep where
  index : Nat
  step : Step
  parameters : Parameters
  deriving DecidableEq, Repr

/-- The parameters of steps, of which the first has the index `i`. -/
def resolveFrom (defaults : ResolvedDefaults) (i : Nat) :
    List Step → Except Problem (List ResolvedStep)
  | [] => .ok []
  | step :: steps => do
    let parameters ← step.resolve defaults (stepPath i)
    return ⟨i, step, parameters⟩ :: (← resolveFrom defaults (i + 1) steps)

def resolveSteps (defaults : ResolvedDefaults) (steps : List Step) :
    Except Problem (List ResolvedStep) :=
  resolveFrom defaults 0 steps

end RoomAudio
