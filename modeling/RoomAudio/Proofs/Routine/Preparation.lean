import RoomAudio.Proofs.Player.FirstFailure
import RoomAudio.Proofs.Routine.Validity
import RoomAudio.Settings.Basic

/-!
# Preparing routines

A routine is prepared by checking it and resolving its steps. The checks alone decide whether that
succeeds: the parameters of a valid step can always be found. So every mode refuses the same
routines for the same reason and reports the same steps.

## Main definitions

* `Parameters.kind` — the kind of step that parameters belong to.
* `Step.exists_resolve` — valid steps have parameters.
* `Document.prepare_error_iff`, `Document.prepare_ok` — when preparing fails, and what it leads to.
* `modes_agree` — what checking, planning and running have in common.
-/

namespace RoomAudio

def Parameters.kind : Parameters → String
  | .outputs _ _ => "out.set"
  | .play _ _ _ _ _ _ => "play"
  | .volume _ _ _ => "volume.set"
  | .wait _ _ _ => "wait"
  | .transport _ => "transport"

/-- The volume of a valid step fits into eight bits. -/
theorem IsVolume.byte? {volume : Int} (h : IsVolume volume) :
    RoomAudio.byte? volume = some volume.toNat ∧ volume.toNat ≤ maxVolume := by
  obtain ⟨nonneg, bound⟩ := h
  unfold RoomAudio.byte? maxVolume at *
  exact ⟨if_pos ⟨nonneg, by omega⟩, by omega⟩

/-- Valid steps have parameters. -/
theorem Step.exists_resolve {step : Step} (h : step.Valid) (defaults : ResolvedDefaults)
    (path : Path) : ∃ p, step.resolve defaults path = .ok p := by
  cases step with
  | outSet rooms => exact ⟨_, rfl⟩
  | play query playlistId => exact ⟨_, rfl⟩
  | volumeSet value rooms =>
    obtain ⟨v, rfl, volume, -⟩ := h
    obtain ⟨fits, bound⟩ := volume.byte?
    have kept : ((some v).bind RoomAudio.byte?).filter (· ≤ maxVolume) = some v.toNat := by
      simp [fits, Option.filter, bound]
    exact ⟨_, by rw [Step.resolve, kept]⟩
  | wait state timeout =>
    obtain ⟨known, nanos, parsed⟩ := h
    obtain ⟨s, named⟩ := Option.isSome_iff_exists.mp known
    exact ⟨_, by simp [Step.resolve, named, parsed]; rfl⟩
  | transport action =>
    obtain ⟨a, named⟩ := Option.isSome_iff_exists.mp h
    exact ⟨_, by simp [Step.resolve, named]; rfl⟩
  | unsupported kind => exact h.elim

/-- Parameters are of the kind of their step. -/
theorem Step.kind_resolve {step : Step} {defaults : ResolvedDefaults} {path : Path} {p : Parameters}
    (h : step.resolve defaults path = .ok p) : p.kind = step.kind := by
  cases step with
  | outSet rooms => cases h; rfl
  | play query playlistId => cases h; rfl
  | volumeSet value rooms =>
    rw [Step.resolve] at h
    split at h <;> cases h
    rfl
  | wait state timeout =>
    rw [Step.resolve] at h
    split at h
    · cases h
    · split at h <;> cases h
      rfl
  | transport action =>
    rw [Step.resolve] at h
    split at h <;> cases h
    rfl
  | unsupported kind => cases h

/-- Steps that keep the rules can be resolved. -/
theorem exists_resolveFrom {steps : List Step} (h : ∀ step ∈ steps, step.Valid)
    (defaults : ResolvedDefaults) (i : Nat) :
    ∃ resolved, resolveFrom defaults i steps = .ok resolved := by
  induction steps generalizing i with
  | nil => exact ⟨[], rfl⟩
  | cons step steps ih =>
    obtain ⟨p, found⟩ := Step.exists_resolve (h step (by simp)) defaults (stepPath i)
    obtain ⟨rest, resolved⟩ := ih (fun step' mem => h step' (by simp [mem])) (i + 1)
    exact ⟨_, by rw [resolveFrom, found, resolved]; rfl⟩

/-- Resolved steps correspond to the steps one by one. -/
theorem getElem?_resolveFrom {steps : List Step} {defaults : ResolvedDefaults} {i : Nat}
    {resolved : List ResolvedStep} (h : resolveFrom defaults i steps = .ok resolved) :
    resolved.length = steps.length ∧ ∀ (n : Nat) (step : Step), steps[n]? = some step →
      ∃ p : Parameters, resolved[n]? = some ⟨i + n, step, p⟩ ∧
        step.resolve defaults (stepPath (i + n)) = .ok p := by
  induction steps generalizing i resolved with
  | nil =>
    cases h
    simp
  | cons first steps ih =>
    rw [resolveFrom, except_bind_ok_iff] at h
    obtain ⟨p, found, h⟩ := h
    rw [except_bind_ok_iff] at h
    obtain ⟨rest, tail, h⟩ := h
    cases h
    obtain ⟨length, each⟩ := ih tail
    refine ⟨by simp [length], fun n step at_n => ?_⟩
    cases n with
    | zero =>
      cases at_n
      exact ⟨p, rfl, found⟩
    | succ n =>
      obtain ⟨q, here, resolves⟩ := each n step at_n
      rw [Nat.add_right_comm] at here resolves
      exact ⟨q, here, resolves⟩

/-- The steps of a routine with parameters of their own kind, in order. -/
def Document.ListedBy (d : Document) (resolved : List ResolvedStep) : Prop :=
  resolved.length = d.steps.length ∧ ∀ (i : Nat) (step : Step), d.steps[i]? = some step →
    ∃ p : Parameters, resolved[i]? = some ⟨i, step, p⟩ ∧ p.kind = step.kind

namespace Document

/-- A valid routine has parameters for all its steps. -/
theorem prepare_ok {d : Document} (h : d.validate = .ok ()) (settings : Defaults) :
    ∃ resolved, d.prepare settings = .ok resolved ∧
      resolveSteps (Defaults.resolve d.defaults settings) d.steps = .ok resolved := by
  obtain ⟨resolved, found⟩ := exists_resolveFrom ((validate_ok_iff d).mp h).steps
    (Defaults.resolve d.defaults settings) 0
  exact ⟨resolved, by rw [prepare, h]; exact found, found⟩

/-- Preparing fails exactly if the check does, and with its problem. -/
theorem prepare_error_iff (d : Document) (settings : Defaults) (problem : Problem) :
    d.prepare settings = .error problem ↔ d.validate = .error problem := by
  cases h : d.validate with
  | error found => simp [prepare, h, bind, Except.bind]
  | ok u =>
    obtain ⟨resolved, prepared, -⟩ := prepare_ok h settings
    simp [prepared]

/-- Resolving keeps the steps and their order. -/
theorem listedBy_of_resolveSteps {d : Document} {defaults : ResolvedDefaults}
    {resolved : List ResolvedStep} (h : resolveSteps defaults d.steps = .ok resolved) :
    d.ListedBy resolved := by
  obtain ⟨length, each⟩ := getElem?_resolveFrom h
  refine ⟨length, fun i step at_i => ?_⟩
  obtain ⟨p, here, resolves⟩ := each i step at_i
  rw [Nat.zero_add] at here
  exact ⟨p, here, Step.kind_resolve resolves⟩

/-- Every mode without a player fails exactly if the check does, and with its problem. -/
theorem preview_error_iff (d : Document) (mode : Mode) (settings : Defaults) (problem : Problem) :
    d.preview mode settings = .error problem ↔ d.validate = .error problem := by
  cases mode <;> simp only [preview, planned, map_eq_error_iff, prepare_error_iff]

/-- Running fails as a whole exactly if the check does, and with its problem. -/
theorem run_error_iff {σ : Type} (d : Document) (settings : Settings) (e : Environment σ)
    (s : Session σ) (problem : Problem) :
    d.run settings.defaults settings.shortcuts e s = .error problem ↔
      d.validate = .error problem := by
  rw [run, map_eq_error_iff, prepare_error_iff]

end Document

/-- Checking, planning and running agree. Whatever the defaults of the settings are, they refuse
the same routines and give the same problem; and where nothing is refused, they list the same
steps with the same parameters, one for each step of the routine, whatever the player and the
signal do. A check is a plan that leaves the settings aside. -/
theorem modes_agree (d : Document) (settings : Settings) :
    (∀ problem,
      (d.prepare settings.defaults = .error problem ↔ d.validate = .error problem) ∧
      (∀ mode, d.preview mode settings.defaults = .error problem ↔ d.validate = .error problem) ∧
      ∀ {σ : Type} (e : Environment σ) (s : Session σ),
        d.run settings.defaults settings.shortcuts e s = .error problem ↔
          d.validate = .error problem) ∧
    (d.validate = .ok () → ∃ steps, d.prepare settings.defaults = .ok steps ∧ d.ListedBy steps ∧
      d.preview .plan settings.defaults = .ok (steps.map StepReport.planned) ∧
      d.preview .dryRun settings.defaults = .ok (steps.map StepReport.planned) ∧
      ∀ {σ : Type} (e : Environment σ) (s : Session σ), ∃ reports t,
        d.run settings.defaults settings.shortcuts e s = .ok (reports, t) ∧
          reports.map StepReport.step = steps) ∧
    d.preview .validate settings.defaults = d.preview .plan {} := by
  refine ⟨fun problem => ⟨d.prepare_error_iff _ _, fun mode => d.preview_error_iff mode _ _,
    fun e s => d.run_error_iff settings e s _⟩, fun valid => ?_, rfl⟩
  obtain ⟨steps, prepared, resolved⟩ := Document.prepare_ok valid settings.defaults
  have planned : d.planned settings.defaults = .ok (steps.map StepReport.planned) := by
    rw [Document.planned, prepared]
    rfl
  refine ⟨steps, prepared, Document.listedBy_of_resolveSteps resolved, planned, planned,
    fun e s => ?_⟩
  exact ⟨_, _, Document.run_of_prepare prepared settings.shortcuts e s,
    e.map_step_runSteps settings.shortcuts steps s⟩

end RoomAudio
