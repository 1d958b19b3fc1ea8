import RoomAudio.Player.Execution
import RoomAudio.Player.Script
import RoomAudio.Proofs.Player.Ending
import RoomAudio.Proofs.Routine.StateNames

/-!
# How a waiting ends

A step that waits for a state asks for it again and again. Only its last question decides how it
ends, and that in a fixed order: the answer comes first, then the time that the step has, and the
cancel signal is looked at last.

## Main definitions

* `Poll` — a question for the state, with the worlds before and behind it.
* `Environment.EndsWith` — what a last question leads to.
* `Environment.Waits` — the questions of a waiting, one after the other.
* `Environment.DecidedBy` — what becomes of a step with these questions.
* `wait_decided_by_last` — every waiting is decided like that.
-/

namespace RoomAudio

variable {σ : Type}

/-- A question for the state: where it is asked, what is answered and where that leads. -/
structure Poll (σ : Type) where
  before : σ
  answer : Except Failure String
  after : σ

namespace Poll

def exchange (p : Poll σ) : Exchange := ⟨.playbackState, p.answer⟩

/-- This is how the player answers there. -/
def Made (p : Poll σ) (e : Environment σ) : Prop :=
  e.call .playbackState p.before = (p.answer, p.after)

/-- What the clock shows when it is looked at after the answer. -/
def clock (p : Poll σ) (e : Environment σ) : Nat := e.time (e.tick p.after)

/-- The answer is the name of the state, in any case and with blank ends. -/
def Reports (p : Poll σ) (state : PlaybackState) : Prop :=
  ∃ report, p.answer = .ok report ∧ Text.lower (Text.trim report) = state.name

def ReportsOther (p : Poll σ) (state : PlaybackState) : Prop :=
  ∃ report, p.answer = .ok report ∧ Text.lower (Text.trim report) ≠ state.name

variable {p : Poll σ} {state : PlaybackState} {failure : Failure}

theorem ReportsOther.not_reports (other : p.ReportsOther state) : ¬ p.Reports state := by
  rintro ⟨report, answer, named⟩
  obtain ⟨report', answer', unnamed⟩ := other
  cases answer.symm.trans answer'
  exact unnamed named

theorem not_reports_of_failed (failed : p.answer = .error failure) : ¬ p.Reports state := by
  rintro ⟨report, answer, -⟩
  cases failed.symm.trans answer

end Poll

namespace Environment

section Relations

variable (e : Environment σ) (state : PlaybackState) (label : String) (deadline : Nat)

inductive EndsWith (p : Poll σ) : Except Failure Unit → Prop
  | reached (named : p.Reports state) : EndsWith p (.ok ())
  | broken {failure : Failure} (failed : p.answer = .error failure) : EndsWith p (.error failure)
  | late (other : p.ReportsOther state) (expired : deadline < p.clock e) :
      EndsWith p (.error (.because (timeoutMessage state label)))
  /-- The signal has tripped when it is looked at in the world `t`. -/
  | cancelled {c : Cancellation} {t : σ} (other : p.ReportsOther state)
      (inTime : p.clock e ≤ deadline) (later : p.clock e ≤ e.time t)
      (tripped : e.cancellation? t = some c) : EndsWith p (.error (.because c.message))

/-- The questions of a waiting that begins in a world, and what it leads to. -/
inductive Waits : σ → List (Poll σ) → Except Failure Unit → Prop
  | last {p : Poll σ} {result : Except Failure Unit} (made : p.Made e)
      (ends : e.EndsWith state label deadline p result) : Waits p.before [p] result
  | again {p : Poll σ} {t : σ} {polls : List (Poll σ)} {result : Except Failure Unit}
      (made : p.Made e) (other : p.ReportsOther state) (inTime : p.clock e ≤ deadline)
      (later : p.clock e ≤ e.time t) (rest : Waits t polls result) :
      Waits p.before (p :: polls) result

end Relations

variable {e : Environment σ} {state : PlaybackState} {label : String} {deadline : Nat}

/-- A sleep that is cut short ends with a look at a signal that has tripped. -/
theorem exists_tripped_of_sleepUntil {wake : Nat} {s : σ} {c : Cancellation}
    (h : (e.sleepUntil wake s).1 = some c) :
    ∃ t, e.time s ≤ e.time t ∧ e.cancellation? t = some c := by
  fun_induction e.sleepUntil wake s with
  | case1 s checked cancellation tripped =>
    cases h
    exact ⟨checked, e.time_le_tick s, tripped⟩
  | case2 => cases h
  | case3 s checked _ now _ ih =>
    obtain ⟨t, later, tripped⟩ := ih h
    have looked : e.time s ≤ e.time now := Nat.le_trans (e.time_le_tick s) (e.time_le_tick checked)
    have slept := e.time_add_le_pause (min sleepSlice (wake - e.time now)) now
    exact ⟨t, by omega, tripped⟩

/-- Whatever a waiting does is one question after the other. -/
theorem poll_waits (state : PlaybackState) (label : String) (interval deadline : Nat)
    (pos : 0 < interval) (s : Session σ) :
    ∃ polls : List (Poll σ),
      (e.poll state label interval deadline pos s).2.exchanges =
        s.exchanges ++ polls.map Poll.exchange ∧
      e.Waits state label deadline s.world polls
        (e.poll state label interval deadline pos s).1 := by
  fun_induction e.poll state label interval deadline pos s with
  | case1 s failure world made =>
    refine ⟨[⟨s.world, .error failure, world⟩], rfl, ?_⟩
    exact .last (p := ⟨s.world, .error failure, world⟩) made (.broken rfl)
  | case2 s report world made exchanges named =>
    have named' := PlaybackState.isNamedBy_eq_true_iff.mp named
    refine ⟨[⟨s.world, .ok report, world⟩], rfl, ?_⟩
    exact .last (p := ⟨s.world, .ok report, world⟩) made (.reached ⟨report, rfl, named'⟩)
  | case3 s report world made exchanges unnamed asked expired =>
    have other := mt PlaybackState.isNamedBy_eq_true_iff.mpr unnamed
    refine ⟨[⟨s.world, .ok report, world⟩], rfl, ?_⟩
    exact .last (p := ⟨s.world, .ok report, world⟩) made (.late ⟨report, rfl, other⟩ expired)
  | case4 s report world made exchanges unnamed asked inTime begun c t slept =>
    have other := mt PlaybackState.isNamedBy_eq_true_iff.mpr unnamed
    obtain ⟨u, later, tripped⟩ := exists_tripped_of_sleepUntil (congrArg Prod.fst slept)
    refine ⟨[⟨s.world, .ok report, world⟩], rfl, ?_⟩
    exact .last (p := ⟨s.world, .ok report, world⟩) made (.cancelled ⟨report, rfl, other⟩
      (Nat.le_of_not_lt inTime) (Nat.le_trans (e.time_le_tick asked) later) tripped)
  | case5 s report world made exchanges unnamed asked inTime begun t slept ih =>
    have other := mt PlaybackState.isNamedBy_eq_true_iff.mpr unnamed
    have woken := e.le_time_sleepUntil (e.time begun + interval) begun (congrArg Prod.fst slept)
    rw [slept] at woken
    have later : e.time asked ≤ e.time t :=
      Nat.le_trans (e.time_le_tick asked) (Nat.le_trans (Nat.le_add_right _ interval) woken)
    obtain ⟨polls, grows, waits⟩ := ih
    refine ⟨⟨s.world, .ok report, world⟩ :: polls, ?_, ?_⟩
    · rw [grows, List.map_cons]
      simp [exchanges, Poll.exchange]
    · exact .again (p := ⟨s.world, .ok report, world⟩) made ⟨report, rfl, other⟩
        (Nat.le_of_not_lt inTime) later waits

/-- All questions but the last one are answered in time with another state. -/
theorem Waits.exists_last {s : σ} {polls : List (Poll σ)} {result : Except Failure Unit}
    (h : e.Waits state label deadline s polls result) :
    ∃ earlier last, polls = earlier ++ [last] ∧ (∀ p ∈ polls, p.Made e) ∧
      (∀ p ∈ earlier, p.ReportsOther state ∧ p.clock e ≤ deadline) ∧
      e.EndsWith state label deadline last result := by
  induction h with
  | @last p _ made ends => exact ⟨[], p, rfl, by simpa using made, by simp, ends⟩
  | @again p _ _ _ made other inTime _ _ ih =>
    obtain ⟨earlier, last, rfl, all, others, ends⟩ := ih
    exact ⟨p :: earlier, last, rfl, List.forall_mem_cons.mpr ⟨made, all⟩,
      List.forall_mem_cons.mpr ⟨⟨other, inTime⟩, others⟩, ends⟩

/-- What becomes of a step that waits until `deadline` and asks these questions. -/
structure DecidedBy (e : Environment σ) (state : PlaybackState) (label : String) (deadline : Nat)
    (earlier : List (Poll σ)) (last : Poll σ) (outcome : Outcome) : Prop where
  made : ∀ p ∈ earlier ++ [last], p.Made e
  other : ∀ p ∈ earlier, p.ReportsOther state
  succeeds : outcome = .succeeded ↔ last.Reports state
  /-- The answer failed, or it was another state: either too late or in time, and then the run was
  cancelled. -/
  fails : ∀ error, outcome = .failed error →
    (∃ failure, last.answer = .error failure ∧ error = failure.message) ∨
    (last.ReportsOther state ∧ deadline < last.clock e ∧ error = timeoutMessage state label) ∨
    (last.ReportsOther state ∧ last.clock e ≤ deadline ∧
      ∃ c t, last.clock e ≤ e.time t ∧ e.cancellation? t = some c ∧ error = c.message)
  ends : outcome = .succeeded ∨ ∃ error, outcome = .failed error
  /-- The wanted state ends the step well, whatever the clock and the signal say. -/
  answerFirst : ∀ p ∈ earlier ++ [last], p.Reports state → p = last ∧ outcome = .succeeded
  /-- When the time is over, that is what the step reports, whatever the signal says. -/
  clockSecond : ∀ p ∈ earlier ++ [last], p.ReportsOther state → deadline < p.clock e →
    p = last ∧ outcome = .failed (timeoutMessage state label)

namespace EndsWith

variable {last : Poll σ} {result : Except Failure Unit}

/-- A waiting succeeds exactly if the last answer names the state. -/
theorem succeeds (h : e.EndsWith state label deadline last result) :
    outcomeOf result = .succeeded ↔ last.Reports state := by
  cases h with
  | reached named => exact iff_of_true rfl named
  | broken failed => exact iff_of_false nofun (Poll.not_reports_of_failed failed)
  | late other => exact iff_of_false nofun other.not_reports
  | cancelled other => exact iff_of_false nofun other.not_reports

/-- A waiting fails because of the player, or because it is too late. -/
theorem fails (h : e.EndsWith state label deadline last result) {error : String}
    (failed : outcomeOf result = .failed error) :
    (∃ failure, last.answer = .error failure ∧ error = failure.message) ∨
    (last.ReportsOther state ∧ deadline < last.clock e ∧ error = timeoutMessage state label) ∨
    (last.ReportsOther state ∧ last.clock e ≤ deadline ∧
      ∃ c t, last.clock e ≤ e.time t ∧ e.cancellation? t = some c ∧ error = c.message) := by
  cases h with
  | reached => cases failed
  | broken answer =>
    cases failed
    exact .inl ⟨_, answer, rfl⟩
  | late other expired =>
    cases failed
    exact .inr (.inl ⟨other, expired, Failure.message_because _⟩)
  | cancelled other inTime later tripped =>
    cases failed
    exact .inr (.inr ⟨other, inTime, _, _, later, tripped, Failure.message_because _⟩)

theorem outcome_of_late (h : e.EndsWith state label deadline last result)
    (other : last.ReportsOther state) (expired : deadline < last.clock e) :
    outcomeOf result = .failed (timeoutMessage state label) := by
  cases h with
  | reached named => exact absurd named other.not_reports
  | broken failed =>
    obtain ⟨report, answer, -⟩ := other
    cases answer.symm.trans failed
  | late => rw [outcomeOf, Failure.message_because]
  | cancelled _ inTime => exact absurd expired (Nat.not_lt.mpr inTime)

/-- The last question decides. -/
theorem decidedBy {earlier : List (Poll σ)} (h : e.EndsWith state label deadline last result)
    (made : ∀ p ∈ earlier ++ [last], p.Made e)
    (others : ∀ p ∈ earlier, p.ReportsOther state ∧ p.clock e ≤ deadline) :
    e.DecidedBy state label deadline earlier last (outcomeOf result) where
  made := made
  other p mem := (others p mem).1
  succeeds := h.succeeds
  fails error failed := h.fails failed
  ends := by
    cases result with
    | ok => exact .inl rfl
    | error failure => exact .inr ⟨failure.message, rfl⟩
  answerFirst p mem named := by
    rcases List.mem_append.mp mem with before | behind
    · exact absurd named (others p before).1.not_reports
    · obtain rfl := List.mem_singleton.mp behind
      exact ⟨rfl, h.succeeds.mpr named⟩
  clockSecond p mem other expired := by
    rcases List.mem_append.mp mem with before | behind
    · exact absurd expired (Nat.not_lt.mpr (others p before).2)
    · obtain rfl := List.mem_singleton.mp behind
      exact ⟨rfl, h.outcome_of_late other expired⟩

end EndsWith

/-- A step that is not refused spends its time on what it is to do. -/
theorem runStep_of_untripped (shortcuts : Shortcuts) (step : ResolvedStep) {s : Session σ}
    (untripped : e.cancellation? (e.look s).world = none) :
    (e.runStep shortcuts step s).1.outcome =
        outcomeOf (step.parameters.perform e shortcuts (e.look (e.look s))).1 ∧
      (e.runStep shortcuts step s).2.exchanges =
        (step.parameters.perform e shortcuts (e.look (e.look s))).2.exchanges := by
  have checked : e.checkSignal s = (.ok (), e.look s) := by simp only [checkSignal, untripped]
  simp only [runStep, checked]
  exact ⟨rfl, rfl⟩

end Environment

/-- A step that waits and finds the signal untripped when it begins asks the player for the state
and nothing else, at least once. Its last question decides how it ends. -/
theorem wait_decided_by_last (e : Environment σ) (shortcuts : Shortcuts) (index : Nat)
    (step : Step) (state : PlaybackState) (label : String) (timeoutMs : Nat) (s : Session σ)
    (untripped : e.cancellation? (e.look s).world = none) :
    ∃ earlier last,
      (e.runStep shortcuts ⟨index, step, .wait state label timeoutMs⟩ s).2.exchanges =
        s.exchanges ++ (earlier ++ [last]).map Poll.exchange ∧
      e.DecidedBy state label
        (e.time (e.look (e.look (e.look s))).world + timeoutMs * 1000000) earlier last
        (e.runStep shortcuts ⟨index, step, .wait state label timeoutMs⟩ s).1.outcome := by
  obtain ⟨outcome, exchanges⟩ := e.runStep_of_untripped shortcuts
    ⟨index, step, .wait state label timeoutMs⟩ untripped
  let started := e.look (e.look (e.look s))
  obtain ⟨polls, grows, waits⟩ := e.poll_waits state label pollInterval
    (e.time started.world + timeoutMs * 1000000) pollInterval_pos started
  obtain ⟨earlier, last, rfl, made, others, ends⟩ := waits.exists_last
  refine ⟨earlier, last, exchanges.trans grows, ?_⟩
  rw [outcome]
  exact ends.decidedBy made others

/-- The run is interrupted during the second question, which finds the wanted state. -/
theorem wait_decided_by_last_interrupted :
    let e := Script.environment { interruptAt := some 2 }
    let s : Session Script.Progress := { world := { states := ["paused", " Playing"] } }
    let step : ResolvedStep := ⟨0, .wait "playing" "5s", .wait .playing "5s" 5000⟩
    e.cancellation? (e.look s).world = none ∧
    ∃ earlier last, (e.runStep {} step s).2.exchanges = (earlier ++ [last]).map Poll.exchange ∧
      e.DecidedBy .playing "5s" 5000000000 earlier last (e.runStep {} step s).1.outcome := by
  intro e s step
  have untripped : e.cancellation? (e.look s).world = none := rfl
  have start : e.time (e.look (e.look (e.look s))).world = 0 := rfl
  obtain ⟨earlier, last, exchanges, decided⟩ :=
    wait_decided_by_last e {} 0 (.wait "playing" "5s") .playing "5s" 5000 s untripped
  rw [start, Nat.zero_add] at decided
  exact ⟨untripped, earlier, last, exchanges, decided⟩

end RoomAudio
