import RoomAudio.Player.Execution
import RoomAudio.Proofs.Player.Ending

/-!
# Stopping at the first failure

A run carries out its steps in order until one of them fails. Nothing is asked of the player on
behalf of the steps after that, and if the player itself failed, this was the last thing it was
asked for.

## Main definitions

* `Environment.sessionAfter`, `Environment.exchangesOf` — what the single steps of a run contribute.
* `Environment.StopsAt` — the run is over with a position.
* `stops_at_first_failure` — every run is over with one.
-/

namespace RoomAudio

variable {σ : Type}

namespace Environment

variable (e : Environment σ) (shortcuts : Shortcuts)

/-! ## One step -/

/-- The failures of a step that are not failures of the player. -/
def OwnFailure (step : ResolvedStep) (failure : Failure) : Prop :=
  failure.IsOther ∨ step.parameters.NamesNothing

@[simp] theorem step_runStep (step : ResolvedStep) (s : Session σ) :
    (e.runStep shortcuts step s).1.step = step := by
  unfold runStep
  split <;> rfl

/-- A step that is begun ends as its parameters do. Otherwise the signal had tripped before it, and
nothing was asked of the player. -/
theorem runStep_yields {step : ResolvedStep} {post : Except Failure Unit → List Exchange → Prop}
    (h : (step.parameters.perform e shortcuts).Yields post) (s : Session σ) :
    ∃ added, (e.runStep shortcuts step s).2.exchanges = s.exchanges ++ added ∧
      ((∃ c : Cancellation, added = [] ∧
          (e.runStep shortcuts step s).1.outcome = .failed c.message) ∨
        ∃ r, (e.runStep shortcuts step s).1.outcome = outcomeOf r ∧ post r added) := by
  have check : e.checkSignal.Yields fun r l =>
      l = [] ∧ ∀ failure, r = .error failure → ∃ c : Cancellation, failure = .because c.message :=
    e.yields_checkSignal (by simp) fun c => ⟨rfl, by rintro _ ⟨⟩; exact ⟨c, rfl⟩⟩
  obtain ⟨waited, quiet, rfl, tripped⟩ := check s
  rw [List.append_nil] at quiet
  unfold runStep
  rcases hc : e.checkSignal s with ⟨failure | _, t⟩ <;> rw [hc] at quiet tripped
  · obtain ⟨c, rfl⟩ := tripped failure rfl
    exact ⟨[], by simpa using quiet, .inl ⟨c, rfl, by simp [outcomeOf]⟩⟩
  · obtain ⟨added, grows, holds⟩ := h (e.look t)
    exact ⟨added, quiet ▸ grows, .inr ⟨_, rfl, holds⟩⟩

/-- A step adds exchanges to the session, and its outcome tells how they ended. -/
theorem runStep_ends (step : ResolvedStep) (s : Session σ) :
    ∃ (r : Except Failure Unit) (added : List Exchange),
      (e.runStep shortcuts step s).2.exchanges = s.exchanges ++ added ∧
      Ending (OwnFailure step) r added ∧
      (e.runStep shortcuts step s).1.outcome = outcomeOf r := by
  obtain ⟨added, grows, ⟨c, rfl, outcome⟩ | ⟨r, outcome, ends⟩⟩ :=
    e.runStep_yields shortcuts (step.parameters.perform_ends e shortcuts) s
  · refine ⟨.error (.because c.message), [], grows, .refused (by simp) (.inl c.isOther), ?_⟩
    rw [outcome, outcomeOf, Failure.message_because]
  · exact ⟨r, added, grows, ends, outcome⟩

/-! ## What each step contributes -/

def sessionAfter (steps : List ResolvedStep) (s : Session σ) (n : Nat) : Session σ :=
  (e.runSteps shortcuts (steps.take n) s).2

/-- The exchanges that are made on behalf of the step at position `i`. -/
def exchangesOf (steps : List ResolvedStep) (s : Session σ) (i : Nat) : List Exchange :=
  (e.sessionAfter shortcuts steps s (i + 1)).exchanges.drop
    (e.sessionAfter shortcuts steps s i).exchanges.length

/-- Later steps are only begun when the first one was good. -/
theorem sessionAfter_cons (step : ResolvedStep) (steps : List ResolvedStep) (s : Session σ)
    (n : Nat) :
    e.sessionAfter shortcuts (step :: steps) s (n + 1) =
      if (e.runStep shortcuts step s).1.outcome.isOk then
        e.sessionAfter shortcuts steps (e.runStep shortcuts step s).2 n
      else (e.runStep shortcuts step s).2 := by
  simp only [sessionAfter, List.take_succ_cons, runSteps]
  split <;> rfl

theorem exchangesOf_zero (step : ResolvedStep) (steps : List ResolvedStep) (s : Session σ) :
    e.exchangesOf shortcuts (step :: steps) s 0 =
      (e.runStep shortcuts step s).2.exchanges.drop s.exchanges.length := by
  rw [exchangesOf, sessionAfter_cons]
  simp [sessionAfter, runSteps]

theorem exchangesOf_succ (step : ResolvedStep) (steps : List ResolvedStep) (s : Session σ)
    (i : Nat) :
    e.exchangesOf shortcuts (step :: steps) s (i + 1) =
      if (e.runStep shortcuts step s).1.outcome.isOk then
        e.exchangesOf shortcuts steps (e.runStep shortcuts step s).2 i
      else [] := by
  rw [exchangesOf, sessionAfter_cons, sessionAfter_cons]
  split
  · rfl
  · exact List.drop_length

/-- What a step adds to the session are its exchanges. -/
theorem exchanges_runStep (step : ResolvedStep) (steps : List ResolvedStep) (s : Session σ) :
    (e.runStep shortcuts step s).2.exchanges =
      s.exchanges ++ e.exchangesOf shortcuts (step :: steps) s 0 := by
  obtain ⟨_, added, grows, -⟩ := e.runStep_ends shortcuts step s
  rw [exchangesOf_zero, grows, List.drop_left]

/-- There is one entry for each step, in order, and it repeats the step. -/
theorem map_step_runSteps (steps : List ResolvedStep) (s : Session σ) :
    (e.runSteps shortcuts steps s).1.map StepReport.step = steps := by
  induction steps generalizing s with
  | nil => rfl
  | cons step steps ih =>
    simp only [runSteps]
    split
    · simp [ih]
    · have skipped : StepReport.step ∘ skip = id := rfl
      simp [skipped]

/-- The exchanges of a run are those of its steps, one step after the other. -/
theorem exchanges_runSteps (steps : List ResolvedStep) (s : Session σ) :
    (e.runSteps shortcuts steps s).2.exchanges =
      s.exchanges ++ (List.range steps.length).flatMap (e.exchangesOf shortcuts steps s) := by
  induction steps generalizing s with
  | nil => simp [runSteps]
  | cons step steps ih =>
    rw [List.length_cons, List.range_succ_eq_map, List.flatMap_cons, List.flatMap_map,
      ← List.append_assoc, ← exchanges_runStep]
    simp only [runSteps, exchangesOf_succ]
    split
    · exact ih _
    · simp

/-- Each step of a run was either carried out in some session or skipped. -/
theorem getElem?_runSteps {steps : List ResolvedStep} {step : ResolvedStep} {i : Nat}
    (s : Session σ) (h : steps[i]? = some step) :
    (∃ t, (e.runSteps shortcuts steps s).1[i]? = some (e.runStep shortcuts step t).1 ∧
      (e.runStep shortcuts step t).2.exchanges =
        t.exchanges ++ e.exchangesOf shortcuts steps s i) ∨
    ((e.runSteps shortcuts steps s).1[i]? = some (skip step) ∧
      e.exchangesOf shortcuts steps s i = []) := by
  induction steps generalizing s i with
  | nil => cases h
  | cons first steps ih =>
    cases i with
    | zero =>
      cases h
      refine .inl ⟨s, ?_, e.exchanges_runStep shortcuts step steps s⟩
      simp only [runSteps]
      split <;> rfl
    | succ i =>
      rw [List.getElem?_cons_succ] at h
      simp only [runSteps, exchangesOf_succ]
      split
      · exact ih _ h
      · exact .inr ⟨by simp [h], rfl⟩

/-! ## Where a run stops -/

/-- The run is over with the step at position `k`. A run in which every step succeeds is over
with the position after its last step. -/
structure StopsAt (steps : List ResolvedStep) (s : Session σ) (k : Nat) : Prop where
  /-- Every step before it succeeded. -/
  before : ∀ i report, (e.runSteps shortcuts steps s).1[i]? = some report → i < k →
    report.outcome.isOk = true ∧ report.outcome.isSkipped = false ∧ report.outcome.error = ""
  /-- The step itself was begun and failed. -/
  failed : ∀ report, (e.runSteps shortcuts steps s).1[k]? = some report →
    report.outcome.isOk = false ∧ report.outcome.isSkipped = false
  /-- Every step after it was skipped. -/
  after : ∀ i report, (e.runSteps shortcuts steps s).1[i]? = some report → k < i →
    report.outcome.isOk = false ∧ report.outcome.isSkipped = true ∧
      report.outcome.error = "skipped due to previous step failure" ∧ report.durationMs = 0
  /-- Nothing was asked of the player on behalf of a step after it. -/
  quiet : ∀ i, k < i → e.exchangesOf shortcuts steps s i = []
  /-- An exchange that failed was the last one of all. It was the step's own, and the step reports
  the failure. -/
  broken : ∀ earlier x later failure,
    (e.runSteps shortcuts steps s).2.exchanges = s.exchanges ++ (earlier ++ x :: later) →
    x.failure? = some failure →
      later = [] ∧ (∃ begun, e.exchangesOf shortcuts steps s k = begun ++ [x]) ∧
      ∃ report, (e.runSteps shortcuts steps s).1[k]? = some report ∧
        report.outcome.error = (x.command.reported failure).message

variable {e shortcuts}

/-- A failed exchange lies behind those that went well. -/
theorem eq_append_of_smooth {l l' earlier later : List Exchange} {x : Exchange} {failure : Failure}
    (smooth : ∀ y ∈ l, y.failure? = none) (failed : x.failure? = some failure)
    (h : l ++ l' = earlier ++ x :: later) : ∃ between, earlier = l ++ between := by
  rcases List.append_eq_append_iff.mp h with ⟨m, rfl, -⟩ | ⟨m, split, tail⟩
  · exact ⟨m, rfl⟩
  · cases m with
    | nil => exact ⟨[], by simpa using split.symm⟩
    | cons y m =>
      obtain ⟨rfl, -⟩ := List.cons_eq_cons.mp tail
      rw [smooth x (by simp [split])] at failed
      cases failed

/-- A run whose first step is good is over where the remaining one is. -/
theorem StopsAt.cons {step : ResolvedStep} {steps : List ResolvedStep} {s : Session σ} {k : Nat}
    (ok : (e.runStep shortcuts step s).1.outcome.isOk = true)
    (rest : e.StopsAt shortcuts steps (e.runStep shortcuts step s).2 k) :
    e.StopsAt shortcuts (step :: steps) s (k + 1) := by
  obtain ⟨r, added, grows, ends, outcome⟩ := e.runStep_ends shortcuts step s
  obtain ⟨u, rfl⟩ : ∃ u, r = .ok u := by
    cases r with
    | ok u => exact ⟨u, rfl⟩
    | error failure => simp [outcome, outcomeOf, Outcome.isOk] at ok
  have reports : (e.runSteps shortcuts (step :: steps) s).1 =
      (e.runStep shortcuts step s).1 ::
        (e.runSteps shortcuts steps (e.runStep shortcuts step s).2).1 := by simp [runSteps, ok]
  have session : (e.runSteps shortcuts (step :: steps) s).2 =
      (e.runSteps shortcuts steps (e.runStep shortcuts step s).2).2 := by simp [runSteps, ok]
  have shift (i : Nat) : e.exchangesOf shortcuts (step :: steps) s (i + 1) =
      e.exchangesOf shortcuts steps (e.runStep shortcuts step s).2 i := by
    rw [exchangesOf_succ, if_pos ok]
  refine ⟨?_, ?_, ?_, ?_, ?_⟩
  · intro i report h hi
    rw [reports] at h
    cases i with
    | zero =>
      cases h
      simp [outcome, outcomeOf, Outcome.isOk, Outcome.isSkipped, Outcome.error]
    | succ i => exact rest.before i report h (by omega)
  · intro report h
    rw [reports] at h
    exact rest.failed report h
  · intro i report h hi
    rw [reports] at h
    cases i with
    | zero => omega
    | succ i => exact rest.after i report h (by omega)
  · intro i hi
    cases i with
    | zero => omega
    | succ i =>
      rw [shift]
      exact rest.quiet i (by omega)
  · intro earlier x later failure h hx
    rw [reports, shift]
    rw [session, e.exchanges_runSteps, grows, List.append_assoc] at h
    -- the first step went well, so the exchange belongs to the steps after it
    obtain ⟨earlier', rfl⟩ :=
      eq_append_of_smooth ends.smooth_of_ok hx (List.append_cancel_left h)
    refine rest.broken earlier' x later failure ?_ hx
    rw [e.exchanges_runSteps, grows]
    simpa using h

/-- A run whose first step fails is over with it. -/
theorem StopsAt.of_failed {step : ResolvedStep} {steps : List ResolvedStep} {s : Session σ}
    (bad : (e.runStep shortcuts step s).1.outcome.isOk = false) :
    e.StopsAt shortcuts (step :: steps) s 0 := by
  obtain ⟨r, added, grows, ends, outcome⟩ := e.runStep_ends shortcuts step s
  obtain ⟨failure, rfl⟩ : ∃ failure, r = .error failure := by
    cases r with
    | ok u => simp [outcome, outcomeOf, Outcome.isOk] at bad
    | error failure => exact ⟨failure, rfl⟩
  have run : e.runSteps shortcuts (step :: steps) s =
      ((e.runStep shortcuts step s).1 :: steps.map skip, (e.runStep shortcuts step s).2) := by
    simp [runSteps, bad]
  refine ⟨by omega, ?_, ?_, ?_, ?_⟩
  · intro report h
    rw [run] at h
    cases h
    simp [outcome, outcomeOf, Outcome.isOk, Outcome.isSkipped]
  · intro i report h hi
    rw [run] at h
    cases i with
    | zero => omega
    | succ i =>
      obtain ⟨step', -, rfl⟩ : ∃ step', steps[i]? = some step' ∧ skip step' = report := by
        simpa using h
      simp [skip, Outcome.isOk, Outcome.isSkipped, Outcome.error]
  · intro i hi
    cases i with
    | zero => omega
    | succ i => rw [exchangesOf_succ, bad, if_neg Bool.false_ne_true]
  · intro earlier x later failure' h hx
    rw [run] at h ⊢
    rw [grows] at h
    obtain rfl := List.append_cancel_left h
    obtain ⟨rfl, same⟩ := ends.eq_of_failure hx
    refine ⟨rfl, ⟨earlier, ?_⟩, _, rfl, ?_⟩
    · rw [exchangesOf_zero, grows, List.drop_left]
    · rw [outcome, same]
      rfl

/-- Every run is over somewhere, by induction on its steps. -/
theorem exists_stopsAt (steps : List ResolvedStep) (s : Session σ) :
    ∃ k ≤ steps.length, e.StopsAt shortcuts steps s k := by
  induction steps generalizing s with
  | nil =>
    refine ⟨0, Nat.le_refl _, ?_, ?_, ?_, ?_, ?_⟩ <;> simp [runSteps, exchangesOf, sessionAfter]
  | cons step steps ih =>
    cases ok : (e.runStep shortcuts step s).1.outcome.isOk with
    | true =>
      obtain ⟨k, bound, stops⟩ := ih (e.runStep shortcuts step s).2
      exact ⟨k + 1, by simpa using bound, stops.cons ok⟩
    | false => exact ⟨0, by simp, .of_failed ok⟩

/-- A run is good as a whole when it does not stop before its end. -/
theorem StopsAt.all_ok_iff {steps : List ResolvedStep} {s : Session σ} {k : Nat}
    (stops : e.StopsAt shortcuts steps s k) (bound : k ≤ steps.length) :
    (∀ report ∈ (e.runSteps shortcuts steps s).1, report.outcome.isOk = true) ↔
      k = steps.length := by
  have length : (e.runSteps shortcuts steps s).1.length = steps.length := by
    rw [← List.length_map StepReport.step, map_step_runSteps]
  constructor
  · intro all
    rcases Nat.eq_or_lt_of_le bound with whole | short
    · exact whole
    · have inside : k < (e.runSteps shortcuts steps s).1.length := by omega
      have bad := (stops.failed _ (List.getElem?_eq_getElem inside)).1
      rw [all _ (List.getElem_mem inside)] at bad
      cases bad
  · rintro rfl report mem
    obtain ⟨i, inside, rfl⟩ := List.getElem_of_mem mem
    exact (stops.before i _ (List.getElem?_eq_getElem inside) (by omega)).1

end Environment

theorem Document.run_of_prepare {d : Document} {settings : Defaults} {steps : List ResolvedStep}
    (prepared : d.prepare settings = .ok steps) (shortcuts : Shortcuts) (e : Environment σ)
    (s : Session σ) : d.run settings shortcuts e s = .ok (e.runSteps shortcuts steps s) := by
  rw [run, prepared]
  rfl

/-- Every run of resolved steps, whatever the player answers and whenever the signal trips, has one
entry for each step in order and is over with one position: the steps before it succeed, the step
at it fails, and those after it are skipped without asking anything of the player. The report about
a routine is good exactly if all its steps are. -/
theorem stops_at_first_failure (e : Environment σ) (shortcuts : Shortcuts)
    (steps : List ResolvedStep) (s : Session σ) :
    (e.runSteps shortcuts steps s).1.map StepReport.step = steps ∧
    (e.runSteps shortcuts steps s).2.exchanges =
      s.exchanges ++ (List.range steps.length).flatMap (e.exchangesOf shortcuts steps s) ∧
    (∃ k ≤ steps.length, e.StopsAt shortcuts steps s k ∧
      ((∀ report ∈ (e.runSteps shortcuts steps s).1, report.outcome.isOk = true) ↔
        k = steps.length)) ∧
    ∀ (d : Document) (settings : Defaults), d.prepare settings = .ok steps →
      d.run settings shortcuts e s = .ok (e.runSteps shortcuts steps s) ∧
      ∀ period, (Report.of d .run period (e.runSteps shortcuts steps s).1).ok = true ↔
        ∀ report ∈ (e.runSteps shortcuts steps s).1, report.outcome.isOk = true := by
  refine ⟨e.map_step_runSteps shortcuts steps s, e.exchanges_runSteps shortcuts steps s, ?_, ?_⟩
  · obtain ⟨k, bound, stops⟩ := Environment.exists_stopsAt (e := e) steps s
    exact ⟨k, bound, stops, stops.all_ok_iff bound⟩
  · intro d settings prepared
    refine ⟨Document.run_of_prepare prepared shortcuts e s, fun period => ?_⟩
    simp [Report.of]

end RoomAudio
