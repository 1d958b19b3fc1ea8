import RoomAudio.Proofs.Player.FirstFailure

/-!
# Shortcuts for all rooms or for none

The backend `native` looks up the shortcuts of all rooms before it runs the first one. So a room
without a shortcut keeps the others from being run, and what has been run when a step ends is the
beginning of one list.

## Main definitions

* `shortcutsRun` — the shortcuts that were run.
* `AllOrNothing` — how a step ends that runs the shortcuts of rooms.
* `Naming` — how a step comes to know the name of its playlist.
* `native_steps_all_or_nothing` — the steps of the backend `native` end like that.
-/

namespace RoomAudio

variable {σ : Type}

/-! ## Rooms that all have a shortcut -/

section Rooms

variable {lookup : String → Option String} {rooms names : List String}

/-- No room is without a shortcut if all are mapped. -/
theorem find?_isNone_of_map (h : rooms.map lookup = names.map some) :
    rooms.find? (fun room => (lookup room).isNone) = none := by
  rw [List.find?_eq_none]
  intro room mem
  have found : lookup room ∈ names.map some := h ▸ List.mem_map_of_mem mem
  obtain ⟨shortcut, -, eq⟩ := List.mem_map.mp found
  simp [← eq]

theorem filterMap_of_map (h : rooms.map lookup = names.map some) :
    rooms.filterMap lookup = names := by
  have same := congrArg (List.filterMap id) h
  simpa using same

end Rooms

/-! ## Running shortcuts -/

def shortcutsRun (l : List Exchange) : List String :=
  l.filterMap fun x =>
    match x.command with
    | .runShortcut name => some name
    | _ => none

theorem shortcutsRun_append (l l' : List Exchange) :
    shortcutsRun (l ++ l') = shortcutsRun l ++ shortcutsRun l' := List.filterMap_append

def OnlyShortcuts (l : List Exchange) : Prop := ∀ x ∈ l, ∃ name, x.command = .runShortcut name

theorem OnlyShortcuts.cons {x : Exchange} {l : List Exchange} {name : String}
    (h : x.command = .runShortcut name) (rest : OnlyShortcuts l) : OnlyShortcuts (x :: l) := by
  intro y mem
  rcases List.mem_cons.mp mem with rfl | mem
  · exact ⟨name, h⟩
  · exact rest y mem

/-- The shortcuts `names` are run one after the other, and all of them exactly if everything goes
well. -/
structure RunsInOrder (names : List String) (r : Except Failure Unit) (l : List Exchange) :
    Prop where
  only : OnlyShortcuts l
  inOrder : shortcutsRun l <+: names
  succeeds : r = .ok () ↔ shortcutsRun l = names ∧ ∀ x ∈ l, x.failure? = none

theorem RunsInOrder.cons {name : String} {names : List String} {r : Except Failure Unit}
    {l : List Exchange} (rest : RunsInOrder names r l) :
    RunsInOrder (name :: names) r (⟨.runShortcut name, .ok ()⟩ :: l) := by
  have ran : shortcutsRun (⟨.runShortcut name, .ok ()⟩ :: l) = name :: shortcutsRun l := rfl
  refine ⟨.cons rfl rest.only, ?_, ?_⟩
  · rw [ran]
    exact (List.prefix_cons_inj name).mpr rest.inOrder
  · rw [rest.succeeds, ran, List.cons_inj_right, List.forall_mem_cons]
    simp [Exchange.failure?]

namespace Environment

variable (e : Environment σ)

/-- Shortcuts are run up to the first one that fails. -/
theorem runShortcuts_runsInOrder (names : List String) :
    (e.runShortcuts names).Yields (RunsInOrder names) := by
  induction names with
  | nil => exact .pure ⟨by simp [OnlyShortcuts], List.nil_prefix, by simp [shortcutsRun]⟩
  | cons name names ih =>
    have checked : e.checkSignal.Yields fun _ l => l = [] :=
      e.yields_checkSignal rfl fun _ => rfl
    -- a round stops before the shortcut or has run it
    have round : Run.Yields (do
        e.checkSignal
        e.send (.runShortcut name) : Run σ Unit) fun r l =>
          (∃ failure, r = .error failure ∧ l = []) ∨ l = [⟨.runShortcut name, r⟩] := by
      refine .bind checked (fun _ l quiet => ?_) fun failure l quiet => ?_
      · exact e.yields_send fun answer => .inr (by rw [quiet]; rfl)
      · exact .inl ⟨failure, rfl, quiet⟩
    refine .bind round (fun _ l sent => ?_) fun failure l stopped => ?_
    · rcases sent with ⟨failure, failed, -⟩ | rfl
      · cases failed
      · exact ih.mono fun r l rest => rest.cons
    · rcases stopped with ⟨_, -, rfl⟩ | rfl
      · exact ⟨by simp [OnlyShortcuts], List.nil_prefix, by simp [shortcutsRun]⟩
      · refine ⟨.cons rfl (by simp [OnlyShortcuts]), ?_, ?_⟩
        · simp [shortcutsRun]
        · simp [Exchange.failure?]

end Environment

/-! ## All or none -/

/-- How a step ends that has made the exchanges `l` and was to run the shortcuts of `rooms`. -/
structure AllOrNothing (lookup : String → Option String) (complaint : String → String)
    (rooms : List String) (r : Except Failure Unit) (l : List Exchange) : Prop where
  /-- A shortcut is run only if every room has one. -/
  onlyMapped : shortcutsRun l ≠ [] → ∀ room ∈ rooms, lookup room ≠ none
  /-- The shortcuts are run in the order of the rooms. -/
  inOrder : ∀ names, rooms.map lookup = names.map some → shortcutsRun l <+: names
  /-- The step succeeds exactly if all shortcuts were run and everything went well. -/
  succeeds : ∀ names, rooms ≠ [] → rooms.map lookup = names.map some →
    (r = .ok () ↔ shortcutsRun l = names ∧ ∀ x ∈ l, x.failure? = none)
  /-- The step complains about the first room that has no shortcut. -/
  unmapped : ∀ room, rooms.find? (fun room => (lookup room).isNone) = some room →
    shortcutsRun l = [] ∧ r = .error (.because (complaint room))
  /-- A step without rooms fails. -/
  noRooms : rooms = [] → shortcutsRun l = [] ∧ ∃ failure, r = .error failure

namespace AllOrNothing

variable {lookup : String → Option String} {complaint : String → String} {rooms : List String}
  {r : Except Failure Unit} {l : List Exchange}

theorem of_noRooms (failure : Failure) : AllOrNothing lookup complaint [] (.error failure) [] := by
  constructor <;> simp [shortcutsRun]

/-- A room without a shortcut ends the step before anything is run. -/
theorem of_unmapped {room : String}
    (h : rooms.find? (fun room => (lookup room).isNone) = some room) :
    AllOrNothing lookup complaint rooms (.error (.because (complaint room))) [] where
  onlyMapped := by simp [shortcutsRun]
  inOrder names _ := List.nil_prefix
  succeeds names _ mapped := by
    rw [find?_isNone_of_map mapped] at h
    cases h
  unmapped room' h' := by
    rw [h] at h'
    cases h'
    exact ⟨rfl, rfl⟩
  noRooms := by
    rintro rfl
    cases h

/-- All rooms are mapped, and their shortcuts are run. -/
theorem of_runsInOrder (some_room : rooms ≠ [])
    (h : rooms.find? (fun room => (lookup room).isNone) = none)
    (ran : RunsInOrder (rooms.filterMap lookup) r l) : AllOrNothing lookup complaint rooms r l where
  onlyMapped _ room mem := by simpa using List.find?_eq_none.mp h room mem
  inOrder names mapped := filterMap_of_map mapped ▸ ran.inOrder
  succeeds names _ mapped := filterMap_of_map mapped ▸ ran.succeeds
  unmapped room h' := by
    rw [h] at h'
    cases h'
  noRooms none := absurd none some_room

/-- Exchanges that went well and ran no shortcut may come first. -/
theorem after {asked : List Exchange} (quiet : shortcutsRun asked = [])
    (smooth : ∀ x ∈ asked, x.failure? = none) (h : AllOrNothing lookup complaint rooms r l) :
    AllOrNothing lookup complaint rooms r (asked ++ l) := by
  have ran : shortcutsRun (asked ++ l) = shortcutsRun l := by
    rw [shortcutsRun_append, quiet, List.nil_append]
  have smooth_iff : (∀ x ∈ asked ++ l, x.failure? = none) ↔ ∀ x ∈ l, x.failure? = none := by
    rw [List.forall_mem_append]
    exact and_iff_right smooth
  obtain ⟨onlyMapped, inOrder, succeeds, unmapped, noRooms⟩ := h
  constructor <;> simp only [ran, smooth_iff] <;> assumption

end AllOrNothing

namespace Environment

variable (e : Environment σ)

/-- Rooms are mapped before the first shortcut is run. -/
theorem runMapped_allOrNothing (lookup : String → Option String) (complaint : String → String)
    {rooms : List String} (some_room : rooms ≠ []) :
    (e.runMapped lookup complaint rooms).Yields fun r l =>
      OnlyShortcuts l ∧ AllOrNothing lookup complaint rooms r l := by
  rw [runMapped, mapRooms_eq]
  cases h : rooms.find? fun room => (lookup room).isNone with
  | some room => exact .throw ⟨by simp [OnlyShortcuts], .of_unmapped h⟩
  | none =>
    refine (e.runShortcuts_runsInOrder _).mono fun r l ran => ?_
    exact ⟨ran.only, .of_runsInOrder some_room h ran⟩

end Environment

/-! ## The name of the playlist -/

/-- How a step comes to know the name of its playlist, from its identifier and its query: the
exchanges that this takes and what comes of them. -/
inductive Naming :
    Option String → Option String → List Exchange → Except Failure String → Prop
  /-- The query is taken for the name. -/
  | query {playlistId : Option String} {query : String} :
      Naming playlistId (some query) [] (.ok query)
  | known {id name : String} :
      Naming (some id) none [⟨.playlistName id, .ok (some name)⟩] (.ok name)
  | unknown {id : String} :
      Naming (some id) none [⟨.playlistName id, .ok none⟩]
        (.error (.because s!"unknown playlist id \"{id}\""))
  | broken {id : String} {failure : Failure} :
      Naming (some id) none [⟨.playlistName id, .error failure⟩] (.error failure)
  | nothing : Naming none none [] (.error Environment.nothingToPlay)

namespace Naming

variable {playlistId query : Option String} {l : List Exchange} {r : Except Failure String}

/-- Coming to know a name runs no shortcut. -/
theorem shortcutsRun_eq_nil (h : Naming playlistId query l r) : shortcutsRun l = [] := by
  cases h <;> rfl

theorem smooth {name : String} (h : Naming playlistId query l (.ok name)) :
    ∀ x ∈ l, x.failure? = none := by
  cases h <;> simp [Exchange.failure?]

end Naming

namespace Environment

variable (e : Environment σ)

/-- The player is asked for a name only if the step gives an identifier and no query. -/
theorem choosePlaylistName_naming (playlistId query : Option String) :
    (e.choosePlaylistName playlistId query).Yields fun r l => Naming playlistId query l r := by
  unfold choosePlaylistName
  cases query with
  | some query => exact .pure .query
  | none =>
    cases playlistId with
    | none => exact .throw .nothing
    | some id =>
      have sent : (e.send (.playlistName id)).Yields fun r l => l = [⟨.playlistName id, r⟩] :=
        e.yields_send fun _ => rfl
      refine .bind sent (fun found l told => ?_) fun failure l told => ?_
      · subst told
        cases found with
        | some name => exact .pure .known
        | none => exact .throw .unknown
      · subst told
        exact .broken

end Environment

/-! ## Native steps -/

/-- What is said about a room without a shortcut for a playlist. -/
def unmappedPlaylist (name room : String) : String :=
  s!"no native shortcut mapped for room \"{room}\" and playlist \"{name}\""

/-- What is said about a room without a shortcut for a volume. -/
def unmappedVolume (value : Nat) (room : String) : String :=
  s!"no native volume shortcut mapped for room \"{room}\" at volume {value}"

/-- How a step ends that plays something in rooms: it comes to know the name of its playlist, and
then it runs the shortcuts of all rooms for this name or none. -/
def NativePlay (shortcuts : Shortcuts) (rooms : List String) (playlistId query : Option String)
    (r : Except Failure Unit) (l : List Exchange) : Prop :=
  ∃ asked ran named, l = asked ++ ran ∧ Naming playlistId query asked named ∧ OnlyShortcuts ran ∧
    (∀ failure, named = .error failure → r = .error failure ∧ ran = []) ∧
    ∀ name, named = .ok name →
      AllOrNothing (shortcuts.forPlaylist? · name) (unmappedPlaylist name) rooms r l

/-- How a step ends that sets a volume: it runs the shortcuts of all rooms for exactly this volume
or none. -/
def NativeVolume (shortcuts : Shortcuts) (rooms : List String) (value : Nat)
    (r : Except Failure Unit) (l : List Exchange) : Prop :=
  OnlyShortcuts l ∧ AllOrNothing (shortcuts.forVolume? · value) (unmappedVolume value) rooms r l

namespace Environment

variable (e : Environment σ) (shortcuts : Shortcuts)

theorem playByShortcuts_nativePlay (rooms : List String) (playlistId query : Option String) :
    (e.playByShortcuts shortcuts rooms playlistId query).Yields
      (NativePlay shortcuts rooms playlistId query) := by
  refine .bind (e.choosePlaylistName_naming playlistId query) (fun name asked naming => ?_)
    fun failure asked naming => ?_
  · have ended {r : Except Failure Unit} {ran : List Exchange} (only : OnlyShortcuts ran)
        (h : AllOrNothing (shortcuts.forPlaylist? · name) (unmappedPlaylist name) rooms r ran) :
        NativePlay shortcuts rooms playlistId query r (asked ++ ran) := by
      refine ⟨asked, ran, .ok name, rfl, naming, only, by simp, ?_⟩
      rintro _ ⟨⟩
      exact h.after naming.shortcutsRun_eq_nil naming.smooth
    unfold runPlaylistShortcuts
    cases rooms with
    | nil => exact .throw (ended (by simp [OnlyShortcuts]) (.of_noRooms _))
    | cons room rooms =>
      exact (e.runMapped_allOrNothing _ _ (by simp)).mono fun r ran h => ended h.1 h.2
  · refine ⟨asked, [], .error failure, (List.append_nil _).symm, naming, by simp [OnlyShortcuts],
      ?_, by simp⟩
    rintro _ ⟨⟩
    exact ⟨rfl, rfl⟩

theorem setVolume_nativeVolume (rooms : List String) (value : Nat) :
    (e.setVolume shortcuts .native rooms value).Yields (NativeVolume shortcuts rooms value) := by
  unfold setVolume
  cases rooms with
  | nil => exact .throw ⟨by simp [OnlyShortcuts], .of_noRooms _⟩
  | cons room rooms => exact e.runMapped_allOrNothing _ _ (by simp)

end Environment

/-- Steps with the parameters `p` end as `post` says. -/
structure Environment.StepsEnd (e : Environment σ) (shortcuts : Shortcuts) (p : Parameters)
    (post : Except Failure Unit → List Exchange → Prop) : Prop where
  /-- So they do when they are carried out. -/
  begun : (p.perform e shortcuts).Yields post
  /-- A step of a run is carried out unless the signal has tripped before it. -/
  inRun : ∀ index step (s : Session σ), ∃ l,
    (e.runStep shortcuts ⟨index, step, p⟩ s).2.exchanges = s.exchanges ++ l ∧
      ((∃ c : Cancellation, l = [] ∧
          (e.runStep shortcuts ⟨index, step, p⟩ s).1.outcome = .failed c.message) ∨
        ∃ r, (e.runStep shortcuts ⟨index, step, p⟩ s).1.outcome = Environment.outcomeOf r ∧
          post r l)

/-- What holds of the parameters holds of every step with them. -/
theorem Environment.StepsEnd.of_yields {e : Environment σ} {shortcuts : Shortcuts} {p : Parameters}
    {post : Except Failure Unit → List Exchange → Prop}
    (h : (p.perform e shortcuts).Yields post) : e.StepsEnd shortcuts p post :=
  ⟨h, fun _ _ s => e.runStep_yields shortcuts h s⟩

/-- The steps of the backend `native` run the shortcuts of all their rooms or none of them,
whatever the shortcuts are, whatever the player answers and whenever the signal trips. They give no
other command than these, except for asking for the name of a playlist. -/
theorem native_steps_all_or_nothing (e : Environment σ) (shortcuts : Shortcuts)
    (rooms : List String) :
    (∀ playlistId query level shuffle,
      e.StepsEnd shortcuts (.play .native rooms playlistId query level shuffle)
        (NativePlay shortcuts rooms playlistId query)) ∧
    ∀ value, e.StepsEnd shortcuts (.volume .native rooms value)
      (NativeVolume shortcuts rooms value) :=
  ⟨fun _ _ _ _ => .of_yields (e.playByShortcuts_nativePlay shortcuts rooms _ _),
    fun value => .of_yields (e.setVolume_nativeVolume shortcuts rooms value)⟩

end RoomAudio
