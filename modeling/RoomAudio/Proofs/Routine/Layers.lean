import RoomAudio.Proofs.Routine.Parameters
import RoomAudio.Proofs.Routine.StateNames

/-!
# Layers of defaults

The defaults of a routine lie over those of the settings. Each field is taken from the upper layer
if it is present there, and what lies under a field that is present shows nowhere in a plan.

## Main definitions

* `Defaults.AgreeUnder` — settings that differ only where a routine has defaults of its own.
* `Defaults.BackendFrom`, `Defaults.roomsFrom` — the backend and the rooms of two layers.
* `Parameters.Layered` — which layer the parameters of a step come from.
* `layers_take_precedence` — plans come from the layers like that.
-/

namespace RoomAudio

namespace Defaults

/-- Two layers that agree on every field that the defaults above them leave open. -/
structure AgreeUnder (own s t : Defaults) : Prop where
  backend : Text.blank own.backend = true → s.backend = t.backend
  rooms : own.rooms = [] → s.rooms = t.rooms
  volume : own.volume = none → s.volume = t.volume
  shuffle : own.shuffle = none → s.shuffle = t.shuffle

/-- `b` is named by the upper layer, or else by the lower one, or else it is `airplay`. -/
def BackendFrom (own below : Defaults) (b : Backend) : Prop :=
  if Text.blank own.backend = false then Text.trim own.backend = b.name
  else if Text.blank below.backend = false then Text.trim below.backend = b.name
  else b = .airplay

def roomsFrom (own below : Defaults) : List String :=
  if own.rooms = [] then below.rooms else own.rooms

end Defaults

/-- The parameters of a step that does not look at defaults, or of one that takes each field from
the layer that has it. -/
def Parameters.Layered (own below : Defaults) : Step → Parameters → Prop
  | .outSet rooms, .outputs backend named => own.BackendFrom below backend ∧ named = rooms
  | .play query playlistId, .play backend rooms id text level shuffle =>
    own.BackendFrom below backend ∧ rooms = own.roomsFrom below ∧
      id = given? playlistId ∧ text = given? query ∧
      level.map Int.ofNat = own.volume.or below.volume ∧ shuffle = own.shuffle.or below.shuffle
  | .volumeSet value rooms, .volume backend named level =>
    own.BackendFrom below backend ∧ value = some (level : Int) ∧
      named = if rooms.getD [] = [] then own.roomsFrom below else rooms.getD []
  | .wait state timeout, .wait wanted label timeoutMs =>
    Text.asciiLower (Text.trim state) = wanted.name ∧ label = Text.trim timeout ∧
      ∃ nanos, parseWaitTimeout timeout = .ok nanos ∧ timeoutMs = nanos / 1000000
  | .transport action, .transport wanted => action = wanted.name
  | _, _ => False

def Step.IgnoresDefaults : Step → Prop
  | .wait _ _ => True
  | .transport _ => True
  | _ => False

/-! ## Names -/

/-- A backend is named by its own name, with blank characters around it or not. -/
theorem Backend.ofName?_eq_some_iff {raw : String} {b : Backend} :
    ofName? raw = some b ↔ Text.trim raw = b.name := by
  cases b <;> grind [ofName?, name]

/-- An action is named by just its own name. -/
theorem TransportAction.ofName?_eq_some_iff {raw : String} {action : TransportAction} :
    ofName? raw = some action ↔ raw = action.name := by
  cases action
  simp [ofName?, name]

/-! ## Both layers as one -/

namespace Defaults

variable {routine : Option Defaults} {s t : Defaults}

/-- What lies under a present field does not matter. -/
theorem resolve_eq_of_agreeUnder (agree : (routine.getD {}).AgreeUnder s t) :
    resolve routine s = resolve routine t := by
  obtain ⟨backend, rooms, volume, shuffle⟩ := agree
  generalize own_eq : routine.getD {} = own at *
  simp only [resolve, own_eq, ResolvedDefaults.mk.injEq]
  refine ⟨?_, ?_, ?_, ?_⟩
  · cases h : Text.blank own.backend with
    | true => rw [backend h]
    | false => simp [h]
  · cases h : own.rooms with
    | nil => simp [rooms h]
    | cons room others => simp
  · cases h : own.volume with
    | none => rw [volume h]
    | some v => rfl
  · cases h : own.shuffle with
    | none => rw [shuffle h]
    | some b => rfl

/-- A backend that is named has been checked, so it is never replaced by `airplay`. -/
theorem backendFrom_resolve (own : (routine.getD {}).Valid) (below : s.Valid) :
    (routine.getD {}).BackendFrom s (resolve routine s).effectiveBackend := by
  have known {d : Defaults} (valid : d.Valid) (named : Text.blank d.backend = false) :
      Text.trim d.backend = ((Backend.ofName? d.backend).getD .airplay).name := by
    obtain blank | known := valid.backend
    · rw [named] at blank
      cases blank
    · obtain ⟨b, found⟩ := Option.isSome_iff_exists.mp known
      rw [found]
      exact Backend.ofName?_eq_some_iff.mp found
  simp only [BackendFrom, resolve, ResolvedDefaults.effectiveBackend]
  split
  · rename_i named
    simpa [named] using known own named
  · rename_i open_
    split
    · rename_i named
      simpa [open_, named] using known below named
    · rename_i blank
      simp [open_, blank]

theorem rooms_resolve (routine : Option Defaults) (s : Defaults) :
    (resolve routine s).rooms = (routine.getD {}).roomsFrom s := by
  simp [resolve, roomsFrom]

/-- Volumes that have been checked fit into eight bits, so none is lost. -/
theorem volume_resolve (own : (routine.getD {}).Valid) (below : s.Valid) :
    (resolve routine s).volume.map Int.ofNat = (routine.getD {}).volume.or s.volume := by
  have fits {d : Defaults} (valid : d.Valid) {v : Int} (h : d.volume = some v) :
      (byte? v).map Int.ofNat = some v := by
    have volume := valid.volume v h
    rw [volume.byte?.1, Option.map_some, Int.ofNat_eq_natCast, Int.toNat_of_nonneg volume.1]
  simp only [resolve]
  cases h : (routine.getD {}).volume with
  | some v => simpa using fits own h
  | none =>
    cases h' : s.volume with
    | some v => simpa using fits below h'
    | none => rfl

end Defaults

/-! ## Plans -/

/-- The rules for a step and for both layers make its parameters come from the layers. -/
theorem Step.resolve_layered {step : Step} {routine : Option Defaults} {below : Defaults}
    {path : Path} {p : Parameters} (own : (routine.getD {}).Valid) (valid : below.Valid)
    (h : step.resolve (Defaults.resolve routine below) path = .ok p) :
    p.Layered (routine.getD {}) below step := by
  have backend := Defaults.backendFrom_resolve own valid
  have rooms := Defaults.rooms_resolve routine below
  cases step with
  | outSet named =>
    cases h
    exact ⟨backend, rfl⟩
  | play query playlistId =>
    cases h
    exact ⟨backend, rooms, rfl, rfl, Defaults.volume_resolve own valid,
      Option.orElse_eq_or⟩
  | volumeSet value named =>
    rw [Step.resolve] at h
    split at h <;> cases h
    rename_i level found
    refine ⟨backend, ?_, by simp [rooms]⟩
    obtain ⟨v, rfl, fits⟩ := Option.bind_eq_some_iff.mp (Option.filter_eq_some_iff.mp found).1
    unfold byte? at fits
    split at fits <;> cases fits
    rename_i bounds
    rw [Int.toNat_of_nonneg bounds.1]
  | wait state timeout =>
    rw [Step.resolve] at h
    split at h
    · cases h
    · rename_i wanted known
      split at h <;> cases h
      rename_i nanos parsed
      exact ⟨PlaybackState.ofName?_eq_some_iff.mp known, rfl, nanos, parsed, rfl⟩
  | transport action =>
    rw [Step.resolve] at h
    split at h <;> cases h
    rename_i wanted known
    exact TransportAction.ofName?_eq_some_iff.mp known
  | unsupported kind => cases h

/-- Steps that ignore defaults have the same parameters over all layers. -/
theorem Step.resolve_eq_of_ignoresDefaults {step : Step} (h : step.IgnoresDefaults)
    (r r' : ResolvedDefaults) (path : Path) : step.resolve r path = step.resolve r' path := by
  cases step with
  | wait state timeout => rfl
  | transport action => rfl
  | _ => exact h.elim

theorem Document.plan_of_prepare {d : Document} {settings : Defaults} {steps : List ResolvedStep}
    (prepared : d.prepare settings = .ok steps) :
    d.preview .plan settings = .ok (steps.map StepReport.planned) := by
  change d.planned settings = _
  rw [planned, prepared]
  rfl

/-- The entries of a plan, one for each step. -/
theorem Document.getElem?_plan {d : Document} {settings : Defaults} {entries : List StepReport}
    (h : d.preview .plan settings = .ok entries) :
    d.validate = .ok () ∧ entries.length = d.steps.length ∧
      ∀ (i : Nat) (step : Step), d.steps[i]? = some step →
        ∃ p : Parameters, entries[i]? = some (.planned ⟨i, step, p⟩) ∧
          step.resolve (Defaults.resolve d.defaults settings) (stepPath i) = .ok p := by
  cases kept : d.validate with
  | error problem =>
    rw [(d.preview_error_iff .plan settings problem).mpr kept] at h
    cases h
  | ok u =>
    obtain ⟨steps, prepared, resolved⟩ := Document.prepare_ok kept settings
    rw [plan_of_prepare prepared] at h
    cases h
    obtain ⟨length, each⟩ := getElem?_resolveFrom resolved
    refine ⟨rfl, by simp [length], fun i step at_i => ?_⟩
    obtain ⟨p, here, resolves⟩ := each i step at_i
    rw [Nat.zero_add] at here resolves
    exact ⟨p, by simp [here], resolves⟩

/-- The plan of a routine is the same for any two settings that agree wherever the routine leaves
its defaults open, whatever they say elsewhere. With settings that keep the rules, each parameter
comes from the routine if it is present there and otherwise from the settings, and the entries of
steps that ignore defaults are the same in all routines and with all settings. -/
theorem layers_take_precedence (d : Document) (kept : d.validate = .ok ()) :
    (∀ s t : Settings, (d.defaults.getD {}).AgreeUnder s.defaults t.defaults →
      d.preview .plan s.defaults = d.preview .plan t.defaults) ∧
    ∀ s : Settings, Settings.checkDefaults s.defaults = .ok () →
      ∃ entries, d.preview .plan s.defaults = .ok entries ∧ entries.length = d.steps.length ∧
        ∀ (i : Nat) (step : Step), d.steps[i]? = some step →
          (∃ p : Parameters, entries[i]? = some (.planned ⟨i, step, p⟩) ∧
            p.Layered (d.defaults.getD {}) s.defaults step) ∧
          (step.IgnoresDefaults → ∀ (other : Document) (t : Settings) (others : List StepReport),
            other.steps[i]? = some step → other.preview .plan t.defaults = .ok others →
            others[i]? = entries[i]?) := by
  refine ⟨fun s t agree => ?_, fun s valid => ?_⟩
  · simp only [Document.preview, Document.planned, Document.prepare,
      Defaults.resolve_eq_of_agreeUnder agree]
  · have own : (d.defaults.getD {}).Valid := by
      have rules := ((Document.validate_ok_iff d).mp kept).defaults
      cases h : d.defaults with
      | none => exact .empty
      | some layer => exact rules layer h
    have below : s.defaults.Valid := (Defaults.validate_ok_iff _ _).mp valid
    obtain ⟨steps, prepared, -⟩ := Document.prepare_ok kept s.defaults
    have plan := Document.plan_of_prepare prepared
    obtain ⟨-, length, each⟩ := Document.getElem?_plan plan
    refine ⟨_, plan, length, fun i step at_i => ?_⟩
    obtain ⟨p, here, resolves⟩ := each i step at_i
    refine ⟨⟨p, here, Step.resolve_layered own below resolves⟩,
      fun ignores other t others at_i' plan' => ?_⟩
    obtain ⟨q, here', resolves'⟩ := (Document.getElem?_plan plan').2.2 i step at_i'
    rw [Step.resolve_eq_of_ignoresDefaults ignores _ (Defaults.resolve d.defaults s.defaults),
      resolves] at resolves'
    cases resolves'
    rw [here, here']

/-- A routine with rooms and a backend of its own, over settings that differ in both. Its volume is
the one of the settings. -/
theorem layers_take_precedence_rooms :
    Document.validate
      { version := "1", name := "evening",
        defaults := some { backend := "native", rooms := ["Den"] },
        steps := [.play (some "jazz") none] } = .ok () ∧
    Settings.checkDefaults { backend := "airplay", rooms := ["Bad"], volume := some 20 } = .ok () ∧
    ∃ entries,
      Document.preview
        { version := "1", name := "evening",
          defaults := some { backend := "native", rooms := ["Den"] },
          steps := [.play (some "jazz") none] }
        .plan { backend := "airplay", rooms := ["Bad"], volume := some 20 } = .ok entries ∧
      Document.preview
        { version := "1", name := "evening",
          defaults := some { backend := "native", rooms := ["Den"] },
          steps := [.play (some "jazz") none] }
        .plan { rooms := ["Bad", "Hall"], volume := some 20 } = .ok entries ∧
      ∃ p : Parameters, entries[0]? = some (.planned ⟨0, .play (some "jazz") none, p⟩) ∧
        p.Layered { backend := "native", rooms := ["Den"] }
          { backend := "airplay", rooms := ["Bad"], volume := some 20 }
          (.play (some "jazz") none) := by
  have layers := layers_take_precedence
    { version := "1", name := "evening",
      defaults := some { backend := "native", rooms := ["Den"] },
      steps := [.play (some "jazz") none] } rfl
  have same := layers.1
    { defaults := { backend := "airplay", rooms := ["Bad"], volume := some 20 } }
    { defaults := { rooms := ["Bad", "Hall"], volume := some 20 } }
    ⟨fun blank => absurd blank (by decide), fun open_ => absurd open_ (by decide),
      fun _ => rfl, fun _ => rfl⟩
  obtain ⟨entries, plan, -, each⟩ := layers.2
    { defaults := { backend := "airplay", rooms := ["Bad"], volume := some 20 } } rfl
  exact ⟨rfl, rfl, entries, plan, same.symm.trans plan, (each 0 _ rfl).1⟩

end RoomAudio
