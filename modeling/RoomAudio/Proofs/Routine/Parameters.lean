import RoomAudio.Proofs.Routine.Preparation
import RoomAudio.Proofs.Text.Blank

/-!
# Well-formed parameters

What the rules for routines and settings guarantee about the parameters that steps are carried out
with. The rules look at each layer by itself; the bounds survive putting the layers together.

## Main definitions

* `ResolvedDefaults.WellFormed`, `Parameters.WellFormed` — the guarantees.
* `Defaults.resolve_wellFormed` — valid layers of defaults lead to well-formed ones.
* `Step.resolve_wellFormed` — valid steps lead to well-formed parameters.
-/

namespace RoomAudio

structure ResolvedDefaults.WellFormed (d : ResolvedDefaults) : Prop where
  rooms : RoomsNamed d.rooms
  volume : ∀ v, d.volume = some v → v ≤ maxVolume

/-- The step carries this playlist identifier itself; what is used of it is what trimming
leaves. -/
def Step.Carries (step : Step) (id : String) : Prop :=
  ∃ query own, step = .play query (some own) ∧ id = Text.trim own

/-- Parameters that can lead to well-formed commands, for a step as it was authored. -/
def Parameters.WellFormed (step : Step) : Parameters → Prop
  | .outputs _ rooms => rooms ≠ [] ∧ RoomsNamed rooms
  | .play _ rooms playlistId query level _ =>
    RoomsNamed rooms ∧ (∀ id, playlistId = some id → Text.Trimmed id ∧ step.Carries id) ∧
      (∀ q, query = some q → Text.Trimmed q) ∧ (playlistId = none → query ≠ none) ∧
      ∀ value, level = some value → value ≤ maxVolume
  | .volume _ rooms value => RoomsNamed rooms ∧ value ≤ maxVolume
  | .wait _ _ timeoutMs => 1000 ≤ timeoutMs ∧ timeoutMs ≤ 600000
  | .transport _ => True

/-! ## Defaults -/

/-- A number of eight bits keeps its value. -/
theorem byte?_toNat {i : Int} {n : Nat} (h : byte? i = some n) : n = i.toNat := by
  unfold byte? at h
  split at h <;> cases h
  rfl

/-- Volumes are checked layer by layer, so the one that is taken has been checked. -/
theorem Defaults.resolve_wellFormed {routine : Option Defaults} {settings : Defaults}
    (own : ∀ d, routine = some d → d.Valid) (global : settings.Valid) :
    (Defaults.resolve routine settings).WellFormed := by
  have layer : (routine.getD {}).Valid := by
    cases routine with
    | none => exact .empty
    | some d => exact own d rfl
  refine ⟨?_, fun n h => ?_⟩
  · unfold Defaults.resolve
    dsimp only
    split
    · exact global.rooms
    · exact layer.rooms
  · obtain ⟨v, chosen, fits⟩ := Option.bind_eq_some_iff.mp h
    have volume : IsVolume v := by
      cases own : (routine.getD {}).volume with
      | none =>
        rw [own] at chosen
        exact global.volume v (by simpa using chosen)
      | some w =>
        rw [own] at chosen
        exact layer.volume v (by rw [own]; simpa using chosen)
    obtain ⟨nonneg, bound⟩ := volume
    have := byte?_toNat fits
    omega

/-! ## Steps -/

/-- A text is given if it is not blank, and then without its blank ends. -/
theorem given?_eq_some_iff (value : Option String) (text : String) :
    given? value = some text ↔
      ∃ raw, value = some raw ∧ Text.blank raw = false ∧ text = Text.trim raw := by
  have nonempty (raw : String) : (Text.trim raw).isEmpty = Text.blank raw := by
    rw [Bool.eq_iff_iff, String.isEmpty_iff, Text.trim_eq_empty_iff]
  cases value with
  | none => simp [given?]
  | some raw =>
    simp only [given?, Option.map_some, Option.filter_some, nonempty, Option.some.injEq,
      exists_eq_left']
    cases Text.blank raw <;> simp [eq_comm]

theorem given?_eq_none_iff (value : Option String) : given? value = none ↔ isGiven value = false := by
  cases value with
  | none => simp [given?, isGiven]
  | some raw =>
    rw [Option.eq_none_iff_forall_ne_some]
    simp [given?_eq_some_iff, isGiven]

/-- Timeouts lie between a second and ten minutes. -/
theorem parseWaitTimeout_bounds {raw : String} {nanos : Nat} (h : parseWaitTimeout raw = .ok nanos) :
    1000 ≤ nanos / 1000000 ∧ nanos / 1000000 ≤ 600000 := by
  obtain ⟨-, long, short⟩ := parseWaitTimeout_eq_ok_iff.mp h
  unfold minWaitTimeout at long
  unfold maxWaitTimeout at short
  omega

/-- The rules for a step and for the defaults bound the parameters of the step. -/
theorem Step.resolve_wellFormed {step : Step} {defaults : ResolvedDefaults} {path : Path}
    {p : Parameters} (valid : step.Valid) (wf : defaults.WellFormed)
    (h : step.resolve defaults path = .ok p) : p.WellFormed step := by
  cases step with
  | outSet rooms =>
    cases h
    exact valid
  | play query playlistId =>
    cases h
    refine ⟨wf.rooms, fun id found => ?_, fun q found => ?_, fun noId noQuery => ?_, wf.volume⟩
    · obtain ⟨raw, rfl, filled, rfl⟩ := (given?_eq_some_iff _ _).mp found
      exact ⟨Text.trimmed_trim filled, query, raw, rfl, rfl⟩
    · obtain ⟨raw, -, filled, rfl⟩ := (given?_eq_some_iff _ _).mp found
      exact Text.trimmed_trim filled
    · rw [given?_eq_none_iff] at noId noQuery
      rw [Step.Valid, noId, noQuery] at valid
      cases valid
  | volumeSet value rooms =>
    obtain ⟨v, rfl, volume, named⟩ := valid
    rw [Step.resolve] at h
    split at h <;> cases h
    rename_i n found
    refine ⟨?_, ?_⟩
    · split
      · exact wf.rooms
      · exact named
    · simpa using (Option.filter_eq_some_iff.mp found).2
  | wait state timeout =>
    rw [Step.resolve] at h
    split at h
    · cases h
    · split at h <;> cases h
      rename_i nanos parsed
      exact parseWaitTimeout_bounds parsed
  | transport action =>
    rw [Step.resolve] at h
    split at h <;> cases h
    trivial
  | unsupported kind => exact valid.elim

/-- All steps of a prepared routine have well-formed parameters. -/
theorem Document.prepare_wellFormed {d : Document} {settings : Defaults}
    {steps : List ResolvedStep} (valid : settings.Valid) (h : d.prepare settings = .ok steps) :
    ∀ step ∈ steps, step.parameters.WellFormed step.step := by
  rw [Document.prepare, except_bind_ok_iff] at h
  obtain ⟨_, checked, resolved⟩ := h
  have rules := (Document.validate_ok_iff d).mp checked
  obtain ⟨length, each⟩ := getElem?_resolveFrom resolved
  intro step mem
  obtain ⟨i, inside, rfl⟩ := List.getElem_of_mem mem
  obtain ⟨p, here, resolves⟩ := each i d.steps[i] (by simp)
  rw [List.getElem?_eq_getElem inside, Option.some.injEq] at here
  rw [here]
  exact Step.resolve_wellFormed (rules.steps _ (List.getElem_mem _))
    (Defaults.resolve_wellFormed rules.defaults valid) resolves

end RoomAudio
