import RoomAudio.Proofs.Refusal
import RoomAudio.Routine.Validation

/-!
# Valid routines

The rules for routines as predicates, next to the checks that look for the first broken rule: a
check lets a value pass exactly if the value is valid.

## Main definitions

* `Defaults.Valid`, `Step.Valid`, `Document.Valid` — the rules.
* `Defaults.validate_ok_iff`, `Step.validate_ok_iff`, `Document.validate_ok_iff` — what the checks
  let pass.
-/

namespace RoomAudio

def RoomsNamed (rooms : List String) : Prop := ∀ room ∈ rooms, Text.blank room = false

def IsVolume (volume : Int) : Prop := 0 ≤ volume ∧ volume ≤ maxVolume

structure Defaults.Valid (d : Defaults) : Prop where
  backend : Text.blank d.backend = true ∨ (Backend.ofName? d.backend).isSome = true
  volume : ∀ v, d.volume = some v → IsVolume v
  rooms : RoomsNamed d.rooms

theorem Defaults.Valid.empty : Defaults.Valid {} := ⟨.inl rfl, by simp, by simp [RoomsNamed]⟩

def Step.Valid : Step → Prop
  | .outSet rooms => rooms ≠ [] ∧ RoomsNamed rooms
  | .play query playlistId => isGiven query = !isGiven playlistId
  | .volumeSet value rooms => ∃ v, value = some v ∧ IsVolume v ∧ RoomsNamed (rooms.getD [])
  | .wait state timeout =>
    (PlaybackState.ofName? state).isSome = true ∧ ∃ nanos, parseWaitTimeout timeout = .ok nanos
  | .transport action => (TransportAction.ofName? action).isSome = true
  | .unsupported _ => False

structure Document.Valid (d : Document) : Prop where
  version : d.version = routineVersion
  name : Text.blank d.name = false
  defaults : ∀ own, d.defaults = some own → own.Valid
  nonempty : d.steps ≠ []
  steps : ∀ step ∈ d.steps, step.Valid

/-! ## What the checks let pass -/

/-- A timeout is a duration within the bounds. -/
theorem parseWaitTimeout_eq_ok_iff {raw : String} {n : Nat} :
    parseWaitTimeout raw = .ok n ↔
      Duration.parse raw = .ok n ∧ minWaitTimeout ≤ n ∧ n ≤ maxWaitTimeout := by
  unfold parseWaitTimeout
  grind

/-- A volume passes its check exactly if it can be set. -/
theorem checkVolume_ok_iff (path : Path) (volume : Int) :
    checkVolume path volume = .ok () ↔ IsVolume volume := by
  unfold checkVolume IsVolume
  split <;> simp_all

/-- Rooms pass their check exactly if none of them is blank. -/
theorem checkRooms_ok_iff (path : Path) (rooms : List String) :
    checkRooms path rooms = .ok () ↔ RoomsNamed rooms := by
  have named : rooms.findIdx? Text.blank = none ↔ RoomsNamed rooms := by
    simp [List.findIdx?_eq_none_iff, RoomsNamed]
  rw [← named]
  unfold checkRooms
  split <;> simp_all

/-- Defaults pass their check exactly if they keep the rules. -/
theorem Defaults.validate_ok_iff (path : Path) (d : Defaults) :
    d.validate path = .ok () ↔ d.Valid := by
  have backend : (¬(!Text.blank d.backend && (Backend.ofName? d.backend).isNone) = true) ↔
      Text.blank d.backend = true ∨ (Backend.ofName? d.backend).isSome = true := by
    cases Text.blank d.backend <;> cases Backend.ofName? d.backend <;> simp
  have rules : d.Valid ↔ (Text.blank d.backend = true ∨ (Backend.ofName? d.backend).isSome = true) ∧
      (∀ v, d.volume = some v → IsVolume v) ∧ RoomsNamed d.rooms :=
    ⟨fun h => ⟨h.backend, h.volume, h.rooms⟩, fun h => ⟨h.1, h.2.1, h.2.2⟩⟩
  unfold Defaults.validate
  dsimp only
  rw [rules, refuse_bind_ok_iff, backend]
  cases d.volume with
  | none => simp [checkRooms_ok_iff]
  | some v => simp [check_bind_ok_iff, checkVolume_ok_iff, checkRooms_ok_iff]

/-- A step passes its check exactly if it keeps the rules. -/
theorem Step.validate_ok_iff (path : Path) (step : Step) :
    step.validate path = .ok () ↔ step.Valid := by
  cases step with
  | outSet rooms =>
    cases rooms with
    | nil => simp [Step.validate, Step.Valid]
    | cons room rooms => simp [Step.validate, Step.Valid, checkRooms_ok_iff]
  | play query playlistId =>
    simp only [Step.validate, Step.Valid]
    cases isGiven query <;> cases isGiven playlistId <;> simp
  | volumeSet value rooms =>
    cases value with
    | none => simp [Step.validate, Step.Valid]
    | some value =>
      cases rooms with
      | none =>
        simp [Step.validate, Step.Valid, check_bind_ok_iff, checkVolume_ok_iff, RoomsNamed, pure,
          Except.pure]
      | some rooms =>
        simp [Step.validate, Step.Valid, check_bind_ok_iff, checkVolume_ok_iff, checkRooms_ok_iff]
  | wait state timeout =>
    simp only [Step.validate, Step.Valid]
    cases PlaybackState.ofName? state <;> cases parseWaitTimeout timeout <;> simp
  | transport action =>
    simp only [Step.validate, Step.Valid]
    cases TransportAction.ofName? action <;> simp
  | unsupported kind => simp [Step.validate, Step.Valid]

theorem validateSteps_ok_iff (i : Nat) (steps : List Step) :
    validateSteps i steps = .ok () ↔ ∀ step ∈ steps, step.Valid := by
  induction steps generalizing i with
  | nil => simp [validateSteps]
  | cons step steps ih => simp [validateSteps, check_bind_ok_iff, Step.validate_ok_iff, ih]

/-- A routine passes its check exactly if it keeps the rules. -/
theorem Document.validate_ok_iff (d : Document) : d.validate = .ok () ↔ d.Valid := by
  have steps : (if d.steps.isEmpty then
        throw ⟨[.field "steps"], .noSteps⟩ >>= fun _ : Unit => validateSteps 0 d.steps
      else validateSteps 0 d.steps) = .ok () ↔ d.steps ≠ [] ∧ ∀ step ∈ d.steps, step.Valid := by
    rw [refuse_bind_ok_iff, validateSteps_ok_iff, List.isEmpty_iff]
  have rules : d.Valid ↔ d.version = routineVersion ∧ Text.blank d.name = false ∧
      (∀ own, d.defaults = some own → own.Valid) ∧ d.steps ≠ [] ∧ ∀ step ∈ d.steps, step.Valid :=
    ⟨fun h => ⟨h.version, h.name, h.defaults, h.nonempty, h.steps⟩,
      fun h => ⟨h.1, h.2.1, h.2.2.1, h.2.2.2.1, h.2.2.2.2⟩⟩
  unfold Document.validate
  dsimp only
  rw [rules, refuse_bind_ok_iff, refuse_bind_ok_iff, Decidable.not_not, Bool.not_eq_true]
  cases d.defaults with
  | none =>
    dsimp only
    rw [steps]
    simp
  | some own =>
    dsimp only
    rw [check_bind_ok_iff, Defaults.validate_ok_iff, steps]
    simp

end RoomAudio
