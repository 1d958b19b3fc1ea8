import RoomAudio.Player.Script
import RoomAudio.Proofs.Player.FirstFailure

/-!
# Interruptions

An interruption is noticed when a step is begun, before each shortcut and between two questions
for the state. So the step during which it comes may still finish what it does to the player
directly, and nothing else happens.

## Main definitions

* `Environment.interruptedDuring` — a player during whose `n`-th command the run is interrupted.
* `Run.Heeds` — a computation that gives only direct commands once it is interrupted.
* `Environment.HeedsAt` — what becomes of a run that is interrupted.
* `interruption_heeded` — every run is like that.
-/

namespace RoomAudio

variable {σ α β : Type}

namespace Environment

/-! ## Runs that are interrupted -/

/-- The same player and clock, with an interruption during the command of number `n`. Commands are
counted beside the state. -/
def interruptedDuring (e : Environment σ) (n : Nat) : Environment (σ × Nat) where
  call c s := ((e.call c s.1).1, (e.call c s.1).2, s.2 + 1)
  tick s := (e.tick s.1, s.2)
  pause d s := (e.pause d s.1, s.2)
  time s := e.time s.1
  interrupted s := e.interrupted s.1 || decide (n ≤ s.2)
  deadline := e.deadline
  time_le_call c s := e.time_le_call c s.1
  time_le_tick s := e.time_le_tick s.1
  time_add_le_pause d s := e.time_add_le_pause d s.1
  interrupted_call := by
    intro c s h
    rw [Bool.or_eq_true, decide_eq_true_iff] at h ⊢
    exact h.imp (e.interrupted_call c s.1) fun late => Nat.le_succ_of_le late
  interrupted_tick := by
    intro s h
    rw [Bool.or_eq_true] at h ⊢
    exact h.imp_left (e.interrupted_tick s.1)
  interrupted_pause := by
    intro d s h
    rw [Bool.or_eq_true] at h ⊢
    exact h.imp_left (e.interrupted_pause d s.1)

/-- From the command of number `n` on the run is interrupted. -/
theorem interrupted_of_le {e : Environment σ} {n : Nat} {s : σ × Nat} (h : n ≤ s.2) :
    (e.interruptedDuring n).interrupted s = true := by
  simp [interruptedDuring, h]

/-! ### Where an interruption is noticed -/

section Noticed

variable {e : Environment σ}

theorem cancellation?_of_interrupted {s : σ} (h : e.interrupted s = true) :
    e.cancellation? s = some .interrupted := by
  simp [cancellation?, signal, CancelSignal.check, h]

theorem checkSignal_snd (s : Session σ) : (e.checkSignal s).2 = e.look s := by
  unfold checkSignal
  dsimp only
  split <;> rfl

/-- The signal is found when it is looked at. -/
theorem checkSignal_of_interrupted {s : Session σ} (h : e.interrupted s.world = true) :
    e.checkSignal s = (.error (.because "routine interrupted"), e.look s) := by
  have tripped := cancellation?_of_interrupted (e.interrupted_tick _ h)
  simp only [checkSignal, look, tripped]
  rfl

/-- An interrupted run does not sleep any longer. -/
theorem sleepUntil_of_interrupted (wake : Nat) {s : σ} (h : e.interrupted s = true) :
    (e.sleepUntil wake s).1 = some .interrupted := by
  unfold sleepUntil
  simp only [cancellation?_of_interrupted (e.interrupted_tick _ h)]

def refuse (step : ResolvedStep) : StepReport :=
  { step, outcome := .failed "routine interrupted" }

/-- An interrupted run refuses a step without a command. -/
theorem runStep_of_interrupted (shortcuts : Shortcuts) (step : ResolvedStep) {s : Session σ}
    (h : e.interrupted s.world = true) :
    e.runStep shortcuts step s = (refuse step, e.look s) := by
  simp only [runStep, checkSignal_of_interrupted h, outcomeOf, Failure.message_because]
  rfl

/-- A run that is interrupted before it begins does nothing. -/
theorem runSteps_of_interrupted (shortcuts : Shortcuts) (steps : List ResolvedStep)
    {s : Session σ} (h : e.interrupted s.world = true) :
    (e.runSteps shortcuts steps s).2.exchanges = s.exchanges ∧
      ∀ first rest, steps = first :: rest →
        (e.runSteps shortcuts steps s).1 = refuse first :: rest.map skip := by
  cases steps with
  | nil => exact ⟨rfl, by simp⟩
  | cons step steps =>
    have stopped : e.runSteps shortcuts (step :: steps) s =
        (refuse step :: steps.map skip, e.look s) := by
      simp only [runSteps, runStep_of_interrupted shortcuts step h]
      rfl
    rw [stopped]
    refine ⟨rfl, fun first rest same => ?_⟩
    cases same
    rfl

/-- The steps after an interruption make no exchanges. -/
theorem exchangesOf_of_interrupted (shortcuts : Shortcuts) (steps : List ResolvedStep)
    {s : Session σ} (h : e.interrupted s.world = true) (i : Nat) :
    e.exchangesOf shortcuts steps s i = [] := by
  have silent (n : Nat) : (e.sessionAfter shortcuts steps s n).exchanges = s.exchanges :=
    (runSteps_of_interrupted shortcuts (steps.take n) h).1
  rw [exchangesOf, silent, silent]
  exact List.drop_length

/-- Every command is counted. -/
theorem count_of_call {n : Nat} {c : Command} {s t : σ × Nat} {answer : Except Failure c.Answer}
    (h : (e.interruptedDuring n).call c s = (answer, t)) : t.2 = s.2 + 1 := by
  cases h
  rfl

/-- Sleeping gives no command. -/
theorem sleepUntil_count (e : Environment σ) (n wake : Nat) (s : σ × Nat) :
    ((e.interruptedDuring n).sleepUntil wake s).2.2 = s.2 := by
  fun_induction (e.interruptedDuring n).sleepUntil wake s with
  | case1 => rfl
  | case2 => rfl
  | case3 s checked _ now _ ih => exact ih

end Noticed

end Environment

/-! ## Commands after the interruption -/

/-- The commands that may still be given by a step that was interrupted: those that do not start
anything anew. -/
def Command.IsDirect : Command → Prop
  | .runShortcut _ => False
  | .playbackState => False
  | _ => True

/-- Once `n` commands have been given, of which `count` came before these exchanges, only direct
commands are given. -/
def HeededFrom (n count : Nat) (l : List Exchange) : Prop :=
  ∀ earlier x later, l = earlier ++ x :: later → n ≤ count + earlier.length → x.command.IsDirect

namespace HeededFrom

variable {n count : Nat} {l l' : List Exchange}

theorem nil : HeededFrom n count [] := by
  intro earlier x later split
  simp at split

theorem single {x : Exchange} (h : n ≤ count → x.command.IsDirect) : HeededFrom n count [x] := by
  intro earlier y later split late
  cases earlier with
  | nil =>
    obtain ⟨rfl, -⟩ := List.cons_eq_cons.mp split
    exact h late
  | cons z earlier => simp at split

theorem append (h : HeededFrom n count l) (h' : HeededFrom n (count + l.length) l') :
    HeededFrom n count (l ++ l') := by
  intro earlier x later split late
  rcases List.append_eq_append_iff.mp split with ⟨m, rfl, tail⟩ | ⟨m, rfl, tail⟩
  · rw [List.length_append, ← Nat.add_assoc] at late
    exact h' m x later tail late
  · cases m with
    | nil => exact h' [] x later (by simpa using tail.symm) (by simpa using late)
    | cons y m =>
      obtain ⟨rfl, -⟩ := List.cons_eq_cons.mp tail
      exact h earlier x m rfl late

end HeededFrom

/-- From a session to a later one: commands are counted, and an interruption by the command of
number `n` is heeded. -/
def Heeded (n : Nat) (s t : Session (σ × Nat)) : Prop :=
  ∃ added, t.exchanges = s.exchanges ++ added ∧ t.world.2 = s.world.2 + added.length ∧
    HeededFrom n s.world.2 added

namespace Heeded

variable {n : Nat} {s t u : Session (σ × Nat)}

theorem of_eq (exchanges : t.exchanges = s.exchanges) (count : t.world.2 = s.world.2) :
    Heeded n s t :=
  ⟨[], by simp [exchanges], by simp [count], .nil⟩

theorem of_single {x : Exchange} (exchanges : t.exchanges = s.exchanges ++ [x])
    (count : t.world.2 = s.world.2 + 1) (h : n ≤ s.world.2 → x.command.IsDirect) : Heeded n s t :=
  ⟨[x], exchanges, count, .single h⟩

theorem trans (first : Heeded n s t) (second : Heeded n t u) : Heeded n s u := by
  obtain ⟨l, grows, counts, heeded⟩ := first
  obtain ⟨l', grows', counts', heeded'⟩ := second
  refine ⟨l ++ l', ?_, ?_, heeded.append (by rwa [← counts])⟩
  · rw [grows', grows, List.append_assoc]
  · rw [counts', counts, List.length_append, Nat.add_assoc]

end Heeded

/-- Wherever a computation begins, it gives only direct commands from the interruption on. -/
def Run.Heeds (x : Run (σ × Nat) α) (n : Nat) : Prop := ∀ s, Heeded n s (x s).2

namespace Run.Heeds

variable {n : Nat}

theorem pure (a : α) : (Pure.pure a : Run (σ × Nat) α).Heeds n := fun _ => .of_eq rfl rfl

theorem throw (failure : Failure) : (MonadExcept.throw failure : Run (σ × Nat) α).Heeds n :=
  fun _ => .of_eq rfl rfl

/-- A computation that goes on with another one heeds the interruption if both do. -/
theorem bind {x : Run (σ × Nat) α} {f : α → Run (σ × Nat) β} (first : x.Heeds n)
    (next : ∀ a, (f a).Heeds n) : (x >>= f).Heeds n := by
  intro s
  have begun := first s
  rw [bind_apply]
  rcases hx : x s with ⟨failure | a, t⟩ <;> rw [hx] at begun
  · exact begun
  · exact begun.trans (next a t)

theorem within {x : Run (σ × Nat) α} (h : x.Heeds n) (context : String) :
    (Run.within x context).Heeds n := by
  intro s
  rw [within_apply]
  exact h s

theorem forM {ι : Type} {items : List ι} {f : ι → Run (σ × Nat) Unit} (each : ∀ a, (f a).Heeds n) :
    (items.forM f).Heeds n := by
  induction items with
  | nil => exact pure ()
  | cons a items ih => exact bind (each a) fun _ => ih

end Run.Heeds

/-! ## Steps that are interrupted -/

namespace Environment

variable (e : Environment σ) (n : Nat)

/-- Direct commands may be given at any time. -/
theorem send_heeds {c : Command} (direct : c.IsDirect) :
    ((e.interruptedDuring n).send c).Heeds n :=
  fun _ => .of_single rfl rfl fun _ => direct

theorem look_heeded (s : Session (σ × Nat)) : Heeded n s ((e.interruptedDuring n).look s) :=
  .of_eq rfl rfl

/-- A shortcut is run only if the signal has not tripped before. -/
theorem runShortcuts_heeds (names : List String) :
    ((e.interruptedDuring n).runShortcuts names).Heeds n := by
  refine .forM fun name s => ?_
  rw [Run.bind_apply]
  by_cases late : n ≤ s.world.2
  · rw [checkSignal_of_interrupted (interrupted_of_le late)]
    exact e.look_heeded n s
  · have looked := checkSignal_snd (e := e.interruptedDuring n) s
    rcases hc : (e.interruptedDuring n).checkSignal s with ⟨failure | _, t⟩ <;> rw [hc] at looked <;>
      obtain rfl : t = _ := looked
    · exact e.look_heeded n s
    · exact .of_single rfl rfl fun early => absurd early late

/-- The signal is looked at before every shortcut. -/
theorem runMapped_heeds (lookup : String → Option String) (complaint : String → String)
    (rooms : List String) : ((e.interruptedDuring n).runMapped lookup complaint rooms).Heeds n := by
  unfold runMapped
  split
  · exact .throw _
  · exact e.runShortcuts_heeds n _

/-- The commands that set volumes are direct ones. -/
theorem setVolumes_heeds (rooms : List String) (value : Nat) :
    ((e.interruptedDuring n).setVolumes rooms value).Heeds n :=
  .forM fun _ => e.send_heeds n trivial

theorem setVolume_heeds (shortcuts : Shortcuts) (backend : Backend) (rooms : List String)
    (value : Nat) : ((e.interruptedDuring n).setVolume shortcuts backend rooms value).Heeds n := by
  unfold setVolume
  split
  · exact .throw _
  · cases backend with
    | airplay => exact e.setVolumes_heeds n rooms value
    | native => exact e.runMapped_heeds n _ _ _

theorem choosePlaylist_heeds (playlistId query : Option String) :
    ((e.interruptedDuring n).choosePlaylist playlistId query).Heeds n := by
  unfold choosePlaylist
  split
  · exact .pure _
  · rename_i sought
    refine .bind (.within (e.send_heeds n (c := .searchPlaylists sought) trivial) _) fun found => ?_
    split
    · exact .pure _
    · exact .throw _
  · exact .throw _

theorem playDirectly_heeds (rooms : List String) (playlistId query : Option String)
    (level : Option Nat) (shuffle : Option Bool) :
    ((e.interruptedDuring n).playDirectly rooms playlistId query level shuffle).Heeds n := by
  refine .bind ?_ fun _ => .bind ?_ fun _ => .bind ?_ fun _ =>
    .bind (e.choosePlaylist_heeds n _ _) fun id => e.send_heeds n (c := .playPlaylist id) trivial
  · split
    · exact .pure ()
    · exact e.send_heeds n trivial
  · cases level with
    | none => exact .pure ()
    | some value => exact e.setVolumes_heeds n rooms value
  · cases shuffle with
    | none => exact .pure ()
    | some enabled => exact e.send_heeds n trivial

theorem playByShortcuts_heeds (shortcuts : Shortcuts) (rooms : List String)
    (playlistId query : Option String) :
    ((e.interruptedDuring n).playByShortcuts shortcuts rooms playlistId query).Heeds n := by
  have name : ((e.interruptedDuring n).choosePlaylistName playlistId query).Heeds n := by
    unfold choosePlaylistName
    split
    · exact .pure _
    · refine .bind (e.send_heeds n trivial) fun found => ?_
      split
      · exact .pure _
      · exact .throw _
    · exact .throw _
  refine .bind name fun name => ?_
  unfold runPlaylistShortcuts
  split
  · exact .throw _
  · exact e.runMapped_heeds n _ _ _

/-- A waiting that begins before the interruption asks no question after it. -/
theorem poll_heeded (state : PlaybackState) (label : String) (interval deadline : Nat)
    (pos : 0 < interval) (s : Session (σ × Nat)) (begun : s.world.2 < n) :
    Heeded n s ((e.interruptedDuring n).poll state label interval deadline pos s).2 := by
  have first {count : Nat} (h : count < n) (late : n ≤ count) : Command.playbackState.IsDirect :=
    absurd late (by omega)
  fun_induction (e.interruptedDuring n).poll state label interval deadline pos s with
  | case1 s failure world called => exact .of_single rfl (count_of_call called) (first begun)
  | case2 s report world called => exact .of_single rfl (count_of_call called) (first begun)
  | case3 s report world called =>
    have now : world.2 = s.world.2 + 1 := count_of_call called
    exact .of_single rfl now (first begun)
  | case4 s report world called exchanges _ asked _ paused cancellation world' slept =>
    have now : world.2 = s.world.2 + 1 := count_of_call called
    have count := e.sleepUntil_count n ((e.interruptedDuring n).time paused + interval) paused
    rw [slept] at count
    exact .of_single rfl (count.trans now) (first begun)
  | case5 s report world called exchanges _ asked _ paused world' slept ih =>
    have now : world.2 = s.world.2 + 1 := count_of_call called
    have count := e.sleepUntil_count n ((e.interruptedDuring n).time paused + interval) paused
    rw [slept] at count
    have next : world'.2 = s.world.2 + 1 := count.trans now
    by_cases late : n ≤ s.world.2 + 1
    · -- the sleep would have been cut short
      have tripped : (e.interruptedDuring n).interrupted paused = true :=
        interrupted_of_le (Nat.le_trans late (Nat.le_of_eq now.symm))
      have noticed :=
        sleepUntil_of_interrupted ((e.interruptedDuring n).time paused + interval) tripped
      rw [slept] at noticed
      cases noticed
    · have rest := ih (by simp only [next]; omega)
      exact Heeded.trans (.of_single (t := ⟨exchanges, world'⟩) rfl next (first begun)) rest

/-- A step that begins before the interruption heeds it. -/
theorem perform_heeded (shortcuts : Shortcuts) (p : Parameters) (s : Session (σ × Nat))
    (begun : s.world.2 < n) : Heeded n s (p.perform (e.interruptedDuring n) shortcuts s).2 := by
  cases p with
  | outputs backend rooms =>
    cases backend with
    | airplay => exact e.send_heeds n (c := .setOutputs rooms) trivial s
    | native => exact .of_eq rfl rfl
  | play backend rooms playlistId query level shuffle =>
    cases backend with
    | airplay => exact e.playDirectly_heeds n rooms playlistId query level shuffle s
    | native => exact e.playByShortcuts_heeds n shortcuts rooms playlistId query s
  | volume backend rooms value => exact e.setVolume_heeds n shortcuts backend rooms value s
  | wait state label timeoutMs => exact e.poll_heeded n state label _ _ _ _ begun
  | transport action =>
    cases action
    exact e.send_heeds n (c := .stop) trivial s

/-- A step that was begun before the interruption heeds it. -/
theorem runStep_heeded (shortcuts : Shortcuts) (step : ResolvedStep) (s : Session (σ × Nat))
    (begun : s.world.2 < n) :
    Heeded n s ((e.interruptedDuring n).runStep shortcuts step s).2 := by
  have looked := checkSignal_snd (e := e.interruptedDuring n) s
  unfold runStep
  rcases hc : (e.interruptedDuring n).checkSignal s with ⟨failure | _, t⟩ <;> rw [hc] at looked <;>
    obtain rfl : t = _ := looked
  · exact e.look_heeded n s
  · have performed := e.perform_heeded n shortcuts step.parameters
      ((e.interruptedDuring n).look ((e.interruptedDuring n).look s)) begun
    exact ((e.look_heeded n _).trans (e.look_heeded n _)).trans
      (performed.trans (e.look_heeded n _))

/-! ## Runs that are interrupted -/

/-- A run is interrupted during the exchange `x`, which follows the exchanges `before` and is made
on behalf of the step at position `i`. -/
structure HeedsAt (shortcuts : Shortcuts) (steps : List ResolvedStep) (s : Session σ)
    (before : List Exchange) (x : Exchange) (i : Nat) : Prop where
  /-- The step gives only direct commands after the exchange. -/
  direct : i < steps.length ∧ ∃ earlier later,
    e.exchangesOf shortcuts steps s i = earlier ++ x :: later ∧
    before = (List.range i).flatMap (e.exchangesOf shortcuts steps s) ++ earlier ∧
    ∀ y ∈ later, y.command.IsDirect
  /-- No step after it gives any command. -/
  quiet : ∀ j, i < j → e.exchangesOf shortcuts steps s j = []
  /-- If the step still succeeds, the next one is refused and the others are skipped. -/
  refused : ∀ report, (e.runSteps shortcuts steps s).1[i]? = some report →
    report.outcome.isOk = true → ∀ next rest, steps.drop (i + 1) = next :: rest →
      (e.runSteps shortcuts steps s).1.drop (i + 1) = refuse next :: rest.map skip

variable {e n} {shortcuts : Shortcuts}

/-- An interruption of the steps behind a good one is an interruption of them all. -/
theorem HeedsAt.cons {step : ResolvedStep} {steps : List ResolvedStep} {s : Session σ}
    {before added : List Exchange} {x : Exchange} {i : Nat}
    (ok : (e.runStep shortcuts step s).1.outcome.isOk = true)
    (grows : (e.runStep shortcuts step s).2.exchanges = s.exchanges ++ added)
    (rest : e.HeedsAt shortcuts steps (e.runStep shortcuts step s).2 before x i) :
    e.HeedsAt shortcuts (step :: steps) s (added ++ before) x (i + 1) := by
  have shift (j : Nat) : e.exchangesOf shortcuts (step :: steps) s (j + 1) =
      e.exchangesOf shortcuts steps (e.runStep shortcuts step s).2 j := by
    rw [exchangesOf_succ, if_pos ok]
  have first : e.exchangesOf shortcuts (step :: steps) s 0 = added := by
    rw [exchangesOf_zero, grows, List.drop_left]
  have reports : (e.runSteps shortcuts (step :: steps) s).1 =
      (e.runStep shortcuts step s).1 ::
        (e.runSteps shortcuts steps (e.runStep shortcuts step s).2).1 := by simp [runSteps, ok]
  obtain ⟨inside, earlier, later, made, split, free⟩ := rest.direct
  refine ⟨⟨by simpa using inside, earlier, later, by rw [shift, made], ?_, free⟩, ?_, ?_⟩
  · rw [List.range_succ_eq_map, List.flatMap_cons, List.flatMap_map, first, split,
      List.append_assoc]
    simp only [shift]
  · intro j hj
    cases j with
    | zero => omega
    | succ j =>
      rw [shift]
      exact rest.quiet j (by omega)
  · intro report h good next others after
    rw [reports] at h ⊢
    exact rest.refused report h good next others after

/-- The interruption comes during the first step of a run. -/
theorem HeedsAt.here {step : ResolvedStep} {steps : List ResolvedStep} {s : Session σ}
    {before after : List Exchange} {x : Exchange}
    (grows : (e.runStep shortcuts step s).2.exchanges = s.exchanges ++ (before ++ x :: after))
    (free : ∀ y ∈ after, y.command.IsDirect)
    (tripped : e.interrupted (e.runStep shortcuts step s).2.world = true) :
    e.HeedsAt shortcuts (step :: steps) s before x 0 := by
  obtain ⟨silent, refused⟩ := runSteps_of_interrupted shortcuts steps tripped
  have first : e.exchangesOf shortcuts (step :: steps) s 0 = before ++ x :: after := by
    rw [exchangesOf_zero, grows, List.drop_left]
  refine ⟨⟨by simp, before, after, first, by simp, free⟩, ?_, ?_⟩
  · intro j hj
    cases j with
    | zero => omega
    | succ j =>
      rw [exchangesOf_succ]
      split
      · exact exchangesOf_of_interrupted shortcuts steps tripped j
      · rfl
  · intro report h good next rest same
    have ok : (e.runStep shortcuts step s).1.outcome.isOk = true := by
      have begun : (e.runSteps shortcuts (step :: steps) s).1[0]? =
          some (e.runStep shortcuts step s).1 := by
        simp only [runSteps]
        split <;> rfl
      rw [begun] at h
      cases h
      exact good
    have reports : (e.runSteps shortcuts (step :: steps) s).1 =
        (e.runStep shortcuts step s).1 ::
          (e.runSteps shortcuts steps (e.runStep shortcuts step s).2).1 := by simp [runSteps, ok]
    rw [reports]
    exact refused next rest same

/-- Whichever exchange of a run the interruption comes with, it is heeded. -/
theorem exists_heedsAt {steps : List ResolvedStep} {s : Session (σ × Nat)}
    {before after : List Exchange} {x : Exchange}
    (split : ((e.interruptedDuring n).runSteps shortcuts steps s).2.exchanges =
      s.exchanges ++ (before ++ x :: after))
    (number : s.world.2 + before.length + 1 = n) :
    ∃ i, (e.interruptedDuring n).HeedsAt shortcuts steps s before x i := by
  induction steps generalizing s before with
  | nil => simp [runSteps] at split
  | cons step steps ih =>
    obtain ⟨added, grows, counts, heeded⟩ := e.runStep_heeded n shortcuts step s (by omega)
    have inFirst {later : List Exchange} (h : added = before ++ x :: later) :
        ∃ i, (e.interruptedDuring n).HeedsAt shortcuts (step :: steps) s before x i := by
      subst h
      refine ⟨0, .here grows (fun y mem => ?_) (interrupted_of_le ?_)⟩
      · obtain ⟨front, back, rfl⟩ := List.append_of_mem mem
        refine heeded (before ++ x :: front) y back (by simp) ?_
        rw [List.length_append, List.length_cons]
        omega
      · rw [counts, List.length_append, List.length_cons]
        omega
    cases ok : ((e.interruptedDuring n).runStep shortcuts step s).1.outcome.isOk with
    | false =>
      simp only [runSteps, ok, Bool.false_eq_true, if_false, grows] at split
      exact inFirst (List.append_cancel_left split)
    | true =>
      simp only [runSteps, ok, if_true] at split
      have all := split
      rw [exchanges_runSteps, grows, List.append_assoc] at all
      rcases List.append_eq_append_iff.mp (List.append_cancel_left all) with
        ⟨further, rfl, tail⟩ | ⟨m, rfl, tail⟩
      · -- the exchange belongs to the steps after the first one
        rw [List.append_assoc, ← List.append_assoc, ← grows] at split
        rw [List.length_append] at number
        obtain ⟨i, heeds⟩ := ih split (by omega)
        exact ⟨i + 1, heeds.cons ok grows⟩
      · cases m with
        | nil =>
          rw [List.append_nil] at grows counts inFirst
          rw [← List.append_assoc, ← grows] at split
          obtain ⟨i, heeds⟩ := @ih _ [] split (by simp only [List.length_nil]; omega)
          exact ⟨i + 1, by simpa using heeds.cons ok grows⟩
        | cons y m =>
          obtain ⟨rfl, -⟩ := List.cons_eq_cons.mp tail
          exact inFirst rfl

end Environment

/-- In every run, whatever its steps, the player and the shortcuts: when the run is interrupted
during a command, no later step gives any command, the step itself gives only direct commands from
then on, and if it still succeeds, the next step is refused because of the interruption and the
others are skipped. A run that is interrupted before it begins gives no command at all. -/
theorem interruption_heeded (e : Environment σ) (shortcuts : Shortcuts)
    (steps : List ResolvedStep) (s : σ) :
    (∀ n before x after,
      ((e.interruptedDuring n).runSteps shortcuts steps { world := (s, 0) }).2.exchanges =
        before ++ x :: after → before.length + 1 = n →
      ∃ i, (e.interruptedDuring n).HeedsAt shortcuts steps { world := (s, 0) } before x i) ∧
    (e.interrupted s = true →
      (e.runSteps shortcuts steps { world := s }).2.exchanges = [] ∧
      ∀ first rest, steps = first :: rest →
        (e.runSteps shortcuts steps { world := s }).1 =
          { step := first, outcome := .failed "routine interrupted", durationMs := 0 } ::
            rest.map Environment.skip) := by
  refine ⟨fun n before x after split number => ?_, fun tripped => ?_⟩
  · exact Environment.exists_heedsAt (s := { world := (s, 0) }) split (by simpa using number)
  · exact Environment.runSteps_of_interrupted shortcuts steps (s := { world := s }) tripped

/-- The run is interrupted while the volume of the first of two rooms is set. -/
theorem interruption_heeded_volumes :
    ∃ i, ((Script.environment {}).interruptedDuring 1).HeedsAt {}
      [⟨0, .volumeSet (some 30) (some ["Den", "Bad"]), .volume .airplay ["Den", "Bad"] 30⟩,
        ⟨1, .transport "stop", .transport .stop⟩]
      { world := ({ states := [] }, 0) } [] ⟨.setVolume "Den" 30, .ok ()⟩ i :=
  (interruption_heeded (Script.environment {}) {} _ _).1 1 [] _ [⟨.setVolume "Bad" 30, .ok ()⟩]
    rfl rfl

end RoomAudio
