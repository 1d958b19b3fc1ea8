import RoomAudio.Player.Script
import RoomAudio.Proofs.Player.FirstFailure
import RoomAudio.Proofs.Routine.Parameters
import RoomAudio.Proofs.Search
import RoomAudio.Proofs.Shortcuts

/-!
# Well-formed commands

A routine that keeps the rules, run with settings that keep them, gives only well-formed commands
to the player. Most of them can be judged by themselves. A playlist may also be one that the player
has just found, so commands are judged together with the exchanges before them.

## Main definitions

* `Command.WellFormed` — well-formed commands, after what was exchanged for the same step before.
* `Orderly` — exchanges of which every command is well-formed where it stands.
* `Environment.runStep_orderly` — a step with well-formed parameters makes orderly exchanges.
* `only_well_formed_commands` — the same for whole runs.
-/

namespace RoomAudio

variable {σ α β : Type}

/-- The last exchange was a search, and a playlist with this identifier was found. -/
def FoundLast (id : String) (before : List Exchange) : Prop :=
  ∃ earlier query found, before = earlier ++ [⟨.searchPlaylists query, .ok found⟩] ∧
    ∃ playlist ∈ found, playlist.id = id

/-- The commands that may be given on behalf of a step after the exchanges `before`. -/
def Command.WellFormed (shortcuts : Shortcuts) (step : Step) (before : List Exchange) :
    Command → Prop
  | .setOutputs rooms => rooms ≠ [] ∧ RoomsNamed rooms
  | .setVolume room value => Text.blank room = false ∧ value ≤ 100
  | .setShuffle _ => True
  | .searchPlaylists query => Text.Trimmed query
  | .playlistName id => Text.Trimmed id
  | .playPlaylist id => Text.Trimmed id ∧ step.Carries id ∨ FoundLast id before
  | .runShortcut name => shortcuts.Holds name
  | .playbackState => True
  | .stop => True

def Orderly (shortcuts : Shortcuts) (step : Step) (l : List Exchange) : Prop :=
  ∀ earlier x later, l = earlier ++ x :: later → x.command.WellFormed shortcuts step earlier

section History

variable {shortcuts : Shortcuts} {step : Step}

/-- Exchanges that lie further back do no harm. -/
theorem Command.WellFormed.extend {before : List Exchange} {c : Command}
    (h : c.WellFormed shortcuts step before) (further : List Exchange) :
    c.WellFormed shortcuts step (further ++ before) := by
  cases c with
  | playPlaylist id =>
    rcases h with own | ⟨earlier, query, found, rfl, mem⟩
    · exact .inl own
    · exact .inr ⟨further ++ earlier, query, found, by rw [List.append_assoc], mem⟩
  | _ => exact h

namespace Orderly

theorem nil : Orderly shortcuts step [] := by
  intro earlier x later split
  simp at split

/-- Commands that are well-formed behind what came before may be added. -/
theorem append_of_extended {l l' : List Exchange} (h : Orderly shortcuts step l)
    (next : ∀ earlier x later, l' = earlier ++ x :: later →
      x.command.WellFormed shortcuts step (l ++ earlier)) : Orderly shortcuts step (l ++ l') := by
  intro earlier x later split
  rcases List.append_eq_append_iff.mp split with ⟨m, rfl, tail⟩ | ⟨m, rfl, tail⟩
  · exact next m x later tail
  · cases m with
    | nil => simpa using next [] x later (by simpa using tail.symm)
    | cons y m =>
      obtain ⟨rfl, -⟩ := List.cons_eq_cons.mp tail
      exact h earlier x m rfl

theorem append {l l' : List Exchange} (h : Orderly shortcuts step l)
    (h' : Orderly shortcuts step l') : Orderly shortcuts step (l ++ l') :=
  h.append_of_extended fun earlier x later split => (h' earlier x later split).extend l

theorem concat {l : List Exchange} {x : Exchange} (h : Orderly shortcuts step l)
    (last : x.command.WellFormed shortcuts step l) : Orderly shortcuts step (l ++ [x]) := by
  refine h.append_of_extended fun earlier y later split => ?_
  cases earlier with
  | nil =>
    obtain ⟨rfl, -⟩ := List.cons_eq_cons.mp split
    simpa using last
  | cons z earlier => simp at split

theorem single {x : Exchange} (h : x.command.WellFormed shortcuts step []) :
    Orderly shortcuts step [x] :=
  nil.concat h

end Orderly

end History

/-! ## Orderly computations -/

abbrev Run.KeepsOrder (x : Run σ α) (shortcuts : Shortcuts) (step : Step) : Prop :=
  x.Yields fun _ l => Orderly shortcuts step l

namespace Run.KeepsOrder

variable {shortcuts : Shortcuts} {step : Step}

theorem pure (a : α) : (Pure.pure a : Run σ α).KeepsOrder shortcuts step := Yields.pure .nil

theorem throw (failure : Failure) :
    (MonadExcept.throw failure : Run σ α).KeepsOrder shortcuts step := Yields.throw .nil

theorem bind {x : Run σ α} {f : α → Run σ β} (first : x.KeepsOrder shortcuts step)
    (next : ∀ a, (f a).KeepsOrder shortcuts step) : (x >>= f).KeepsOrder shortcuts step :=
  Yields.bind first (fun a _ h => (next a).mono fun _ _ rest => h.append rest) fun _ _ h => h

theorem forM {ι : Type} {items : List ι} {f : ι → Run σ Unit}
    (each : ∀ a ∈ items, (f a).KeepsOrder shortcuts step) :
    (items.forM f).KeepsOrder shortcuts step :=
  Yields.forM .nil (fun _ _ _ first rest => first.append rest) each

end Run.KeepsOrder

/-! ## The commands of a step -/

/-- Every shortcut that is found belongs to a room. -/
theorem mapRooms_ok {lookup : String → Option String} {complaint : String → String}
    {rooms names : List String} (h : mapRooms lookup complaint rooms = .ok names) :
    ∀ name ∈ names, ∃ room ∈ rooms, lookup room = some name := by
  rw [mapRooms_eq] at h
  split at h
  · cases h
  · cases h
    exact fun name mem => List.mem_filterMap.mp mem

namespace Environment

variable (e : Environment σ) {shortcuts : Shortcuts} {step : Step}

theorem send_keepsOrder {c : Command} (h : c.WellFormed shortcuts step []) :
    (e.send c).KeepsOrder shortcuts step :=
  e.yields_send fun _ => .single h

theorem checkSignal_keepsOrder : e.checkSignal.KeepsOrder shortcuts step :=
  e.yields_checkSignal .nil fun _ => .nil

theorem waitFor_keepsOrder (state : PlaybackState) (label : String) (timeout : Nat) :
    (e.waitFor state label timeout).KeepsOrder shortcuts step := by
  have question (answer : Except Failure String) :
      Orderly shortcuts step [⟨.playbackState, answer⟩] := .single trivial
  refine e.yields_waitFor fun _ => e.yields_poll ?_ ?_ ?_ ?_ ?_
  · exact fun failure => question _
  · exact fun report _ => question _
  · exact fun report _ => question _
  · exact fun report _ _ => question _
  · exact fun report r l _ rest => (question _).append rest

/-- Volumes are set for named rooms and within bounds. -/
theorem setVolumes_keepsOrder {rooms : List String} {value : Nat} (named : RoomsNamed rooms)
    (bound : value ≤ maxVolume) : (e.setVolumes rooms value).KeepsOrder shortcuts step :=
  .forM fun room mem => e.send_keepsOrder ⟨named room mem, bound⟩

/-- Only shortcuts of the tables are run. -/
theorem runMapped_keepsOrder {lookup : String → Option String} {complaint : String → String}
    (rooms : List String) (held : ∀ room name, lookup room = some name → shortcuts.Holds name) :
    (e.runMapped lookup complaint rooms).KeepsOrder shortcuts step := by
  unfold runMapped
  split
  · exact .throw _
  · rename_i names mapped
    refine .forM fun name mem => .bind e.checkSignal_keepsOrder fun _ => e.send_keepsOrder ?_
    obtain ⟨room, -, found⟩ := mapRooms_ok mapped name mem
    exact held room name found

theorem setVolume_keepsOrder {backend : Backend} {rooms : List String} {value : Nat}
    (named : RoomsNamed rooms) (bound : value ≤ maxVolume) :
    (e.setVolume shortcuts backend rooms value).KeepsOrder shortcuts step := by
  unfold setVolume
  split
  · exact .throw _
  · cases backend with
    | airplay => exact e.setVolumes_keepsOrder named bound
    | native => exact e.runMapped_keepsOrder rooms fun _ _ => Shortcuts.holds_of_forVolume?

/-- A search that finds something leaves it as the last answer. -/
theorem findPlaylist_yields {query : String} (trimmed : Text.Trimmed query) :
    (e.findPlaylist query).Yields fun r l =>
      Orderly shortcuts step l ∧ ∀ id, r = .ok id → FoundLast id l := by
  have search : (Run.within (e.send (.searchPlaylists query))
      s!"playlist search for \"{query}\" failed").Yields fun r l =>
        Orderly shortcuts step l ∧
          ∀ found, r = .ok found → l = [⟨.searchPlaylists query, .ok found⟩] := by
    refine .within (e.yields_send fun answer => ⟨.single trimmed, fun found h => ?_⟩)
    cases answer <;> cases h
    rfl
  refine .bind search (fun found l ⟨order, asked⟩ => ?_) fun failure l ⟨order, _⟩ => ⟨order, by simp⟩
  obtain rfl := asked found rfl
  split
  · rename_i playlist best
    refine .pure ⟨by simpa using order, fun id h => ?_⟩
    cases h
    exact ⟨[], query, found, by simp, playlist, Search.best?_mem best, rfl⟩
  · exact .throw ⟨by simpa using order, by simp⟩

/-- An identifier was carried by the step, or was just found. -/
theorem choosePlaylist_yields {playlistId query : Option String}
    (carried : ∀ id, playlistId = some id → Text.Trimmed id ∧ step.Carries id)
    (trimmed : ∀ q, query = some q → Text.Trimmed q) :
    (e.choosePlaylist playlistId query).Yields fun r l => Orderly shortcuts step l ∧
      ∀ id, r = .ok id → (Command.playPlaylist id).WellFormed shortcuts step l := by
  unfold choosePlaylist
  split
  · rename_i id
    refine .pure ⟨.nil, fun id' h => ?_⟩
    cases h
    exact .inl (carried id rfl)
  · rename_i q
    exact (e.findPlaylist_yields (trimmed q rfl)).mono fun r l ⟨order, found⟩ =>
      ⟨order, fun id h => .inr (found id h)⟩
  · exact .throw ⟨.nil, by simp⟩

theorem playDirectly_keepsOrder {rooms : List String} {playlistId query : Option String}
    {level : Option Nat} {shuffle : Option Bool} (named : RoomsNamed rooms)
    (carried : ∀ id, playlistId = some id → Text.Trimmed id ∧ step.Carries id)
    (trimmed : ∀ q, query = some q → Text.Trimmed q)
    (bound : ∀ value, level = some value → value ≤ maxVolume) :
    (e.playDirectly rooms playlistId query level shuffle).KeepsOrder shortcuts step := by
  have outputs : Run.KeepsOrder (if rooms.isEmpty then pure () else e.send (.setOutputs rooms))
      shortcuts step := by
    split
    · exact .pure ()
    · rename_i some
      exact e.send_keepsOrder ⟨by simpa using some, named⟩
  have play : Run.KeepsOrder (do
      let id ← e.choosePlaylist playlistId query
      e.send (.playPlaylist id)) shortcuts step :=
    Run.Yields.bind (e.choosePlaylist_yields carried trimmed)
      (fun id l ⟨order, chosen⟩ => e.yields_send fun _ => order.concat (chosen id rfl))
      fun _ _ h => h.1
  refine .bind outputs fun _ => .bind ?_ fun _ => .bind ?_ fun _ => play
  · cases level with
    | none => exact .pure ()
    | some value => exact e.setVolumes_keepsOrder named (bound value rfl)
  · cases shuffle with
    | none => exact .pure ()
    | some enabled => exact e.send_keepsOrder trivial

theorem playByShortcuts_keepsOrder {rooms : List String} {playlistId query : Option String}
    (trimmed : ∀ id, playlistId = some id → Text.Trimmed id) :
    (e.playByShortcuts shortcuts rooms playlistId query).KeepsOrder shortcuts step := by
  have name : (e.choosePlaylistName playlistId query).KeepsOrder shortcuts step := by
    unfold choosePlaylistName
    split
    · exact .pure _
    · rename_i id
      refine .bind (e.send_keepsOrder (trimmed id rfl)) fun found => ?_
      split
      · exact .pure _
      · exact .throw _
    · exact .throw _
  refine .bind name fun name => ?_
  unfold runPlaylistShortcuts
  split
  · exact .throw _
  · exact e.runMapped_keepsOrder rooms fun _ _ => Shortcuts.holds_of_forPlaylist?

end Environment

/-- A step with well-formed parameters gives well-formed commands only. -/
theorem Parameters.perform_keepsOrder {p : Parameters} {step : Step} (wf : p.WellFormed step)
    (e : Environment σ) (shortcuts : Shortcuts) :
    Run.KeepsOrder (p.perform e shortcuts) shortcuts step := by
  cases p with
  | outputs backend rooms =>
    cases backend with
    | airplay => exact e.send_keepsOrder wf
    | native => exact .throw _
  | play backend rooms playlistId query level shuffle =>
    obtain ⟨named, carried, trimmed, -, bound⟩ := wf
    cases backend with
    | airplay => exact e.playDirectly_keepsOrder named carried trimmed bound
    | native => exact e.playByShortcuts_keepsOrder fun id h => (carried id h).1
  | volume backend rooms value => exact e.setVolume_keepsOrder wf.1 wf.2
  | wait state timeout timeoutMs => exact e.waitFor_keepsOrder _ _ _
  | transport action =>
    cases action
    exact e.send_keepsOrder trivial

/-! ## Whole runs -/

namespace Environment

variable (e : Environment σ) (shortcuts : Shortcuts)

/-- The commands of a step are well-formed. -/
theorem runStep_orderly {step : ResolvedStep} (wf : step.parameters.WellFormed step.step)
    (s : Session σ) : ∃ added, (e.runStep shortcuts step s).2.exchanges = s.exchanges ++ added ∧
      Orderly shortcuts step.step added := by
  obtain ⟨added, grows, ⟨_, rfl, -⟩ | ⟨_, -, orderly⟩⟩ :=
    e.runStep_yields shortcuts (Parameters.perform_keepsOrder wf e shortcuts) s
  · exact ⟨[], grows, .nil⟩
  · exact ⟨added, grows, orderly⟩

/-- A step with well-formed parameters complains about a missing playlist only if it passes on what
the player said. -/
theorem runStep_blames {step : ResolvedStep} (wf : step.parameters.WellFormed step.step)
    {s : Session σ} {added : List Exchange}
    (grows : (e.runStep shortcuts step s).2.exchanges = s.exchanges ++ added)
    (complains : (e.runStep shortcuts step s).1.outcome.error = nothingToPlay.message) :
    ∃ x ∈ added, ∃ failure, x.failure? = some failure ∧
      (x.command.reported failure).message = nothingToPlay.message := by
  obtain ⟨r, added', grows', ends, outcome⟩ := e.runStep_ends shortcuts step s
  obtain rfl : added' = added := List.append_cancel_left (grows'.symm.trans grows)
  rw [outcome] at complains
  cases ends with
  | done => exact absurd complains (by simp [outcomeOf, Outcome.error, nothingToPlay])
  | refused smooth own =>
    rcases own with other | nothing
    · exact absurd complains other
    · generalize step.parameters = p at wf nothing
      cases p with
      | play => exact absurd nothing.2 (wf.2.2.2.1 nothing.1)
      | _ => exact nothing.elim
  | @broken x failure before smooth failed => exact ⟨x, by simp, failure, failed, complains⟩

/-- The step at position `i` of a run is well-behaved towards the player. -/
structure WellBehaved (steps : List ResolvedStep) (s : Session σ) (i : Nat) (step : ResolvedStep) :
    Prop where
  /-- The commands on behalf of the step are well-formed. -/
  commands : Orderly shortcuts step.step (e.exchangesOf shortcuts steps s i)
  /-- A waiting takes at least a second and at most ten minutes. -/
  waits : ∀ state label timeoutMs, step.parameters = .wait state label timeoutMs →
    1000 ≤ timeoutMs ∧ timeoutMs ≤ 600000
  /-- Only a player that says so makes the step complain about a missing playlist. -/
  blames : ∀ report, (e.runSteps shortcuts steps s).1[i]? = some report →
    report.outcome.error = "play requires either query or playlistId" →
    ∃ x ∈ e.exchangesOf shortcuts steps s i, ∃ failure, x.failure? = some failure ∧
      (x.command.reported failure).message = "play requires either query or playlistId"

theorem wellBehaved_of_wellFormed {steps : List ResolvedStep} {i : Nat} {step : ResolvedStep}
    (s : Session σ) (wf : step.parameters.WellFormed step.step) (h : steps[i]? = some step) :
    e.WellBehaved shortcuts steps s i step := by
  have waits (state label timeoutMs) (wait : step.parameters = .wait state label timeoutMs) :
      1000 ≤ timeoutMs ∧ timeoutMs ≤ 600000 := by
    rw [wait] at wf
    exact wf
  have text : nothingToPlay.message = "play requires either query or playlistId" :=
    Failure.message_because _
  rcases e.getElem?_runSteps shortcuts s h with ⟨t, here, grows⟩ | ⟨here, quiet⟩
  · obtain ⟨added, grows', orderly⟩ := e.runStep_orderly shortcuts wf t
    obtain rfl := List.append_cancel_left (grows'.symm.trans grows)
    refine ⟨orderly, waits, fun report found complains => ?_⟩
    rw [here] at found
    cases found
    rw [← text] at complains ⊢
    exact e.runStep_blames shortcuts wf grows complains
  · refine ⟨by rw [quiet]; exact .nil, waits, fun report found complains => ?_⟩
    rw [here] at found
    cases found
    exact absurd complains (by simp [skip, Outcome.error])

end Environment

/-- With settings that keep the rules, a routine that breaks them is not begun, and any other one
gives only well-formed commands to the player, whatever the player answers and whenever the signal
trips. No step complains about a missing playlist by itself. -/
theorem only_well_formed_commands (d : Document) (settings : Settings)
    (valid : Settings.checkDefaults settings.defaults = .ok ()) (e : Environment σ)
    (s : Session σ) :
    (∀ problem, d.validate = .error problem →
      d.run settings.defaults settings.shortcuts e s = .error problem) ∧
    (d.validate = .ok () → ∃ steps, d.prepare settings.defaults = .ok steps ∧
      d.run settings.defaults settings.shortcuts e s =
        .ok (e.runSteps settings.shortcuts steps s) ∧
      (e.runSteps settings.shortcuts steps s).2.exchanges = s.exchanges ++
        (List.range steps.length).flatMap (e.exchangesOf settings.shortcuts steps s) ∧
      ∀ i step, steps[i]? = some step → e.WellBehaved settings.shortcuts steps s i step) := by
  refine ⟨fun problem broken => (d.run_error_iff settings e s problem).mpr broken, fun kept => ?_⟩
  obtain ⟨steps, prepared, -⟩ := Document.prepare_ok kept settings.defaults
  have rules : settings.defaults.Valid := (Defaults.validate_ok_iff _ _).mp valid
  refine ⟨steps, prepared, Document.run_of_prepare prepared settings.shortcuts e s,
    e.exchanges_runSteps settings.shortcuts steps s, ?_⟩
  intro i step h
  refine e.wellBehaved_of_wellFormed settings.shortcuts s ?_ h
  exact Document.prepare_wellFormed rules prepared step (List.mem_of_getElem? h)

/-- A routine that searches for a playlist, with a room that the settings supply. -/
theorem only_well_formed_commands_evening :
    Settings.checkDefaults { rooms := ["Den"], volume := some 30 } = .ok () ∧
    ∃ steps, Document.prepare
      { version := "1", name := "evening", steps := [.play (some " jazz ") none] }
      { rooms := ["Den"], volume := some 30 } = .ok steps ∧
      ∀ i step, steps[i]? = some step →
        (Script.environment { playlists := [⟨"p1", "Jazz"⟩] }).WellBehaved {} steps
          { world := { states := [] } } i step := by
  have valid : Settings.checkDefaults { rooms := ["Den"], volume := some 30 } = .ok () := rfl
  have run := only_well_formed_commands
    { version := "1", name := "evening", steps := [.play (some " jazz ") none] }
    { defaults := { rooms := ["Den"], volume := some 30 } } valid
    (Script.environment { playlists := [⟨"p1", "Jazz"⟩] }) { world := { states := [] } }
  obtain ⟨steps, prepared, -, -, behaved⟩ := run.2 rfl
  exact ⟨valid, steps, prepared, behaved⟩

/-- A player can fail with any text, so also with the complaint about a missing playlist. -/
theorem missing_playlist_reported_by_player :
    ¬ ∀ (σ : Type) (d : Document) (settings : Settings) (e : Environment σ) (s : Session σ),
      Settings.checkDefaults settings.defaults = .ok () → ∀ reports t,
      d.run settings.defaults settings.shortcuts e s = .ok (reports, t) → ∀ report ∈ reports,
        report.outcome.error ≠ "play requires either query or playlistId" := by
  intro never
  have said := never Script.Progress
    { version := "1", name := "quiet", steps := [.transport "stop"] } {}
    (Script.environment
      { faults := [("stop", .because "play requires either query or playlistId")] })
    { world := { states := [] } } rfl _ _ rfl
  exact said _ (List.mem_singleton_self _) rfl

end RoomAudio
