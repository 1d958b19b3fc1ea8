import RoomAudio.Player.Script
import RoomAudio.Proofs.Player.Mapped
import RoomAudio.Proofs.Refusal
import RoomAudio.Proofs.Search

/-!
# Following a script of commands

The commands by which the backend `airplay` plays something or sets a volume are known beforehand,
up to the playlist that a search finds. They are given in one fixed order, and the first one that
fails is the last one.

## Main definitions

* `Follows` — how a computation ends that was to give the commands of a script.
* `playScript`, `volumeScript` — the commands that start a playlist and those that set a volume.
* `Choosing` — how a step comes to know the identifier of its playlist.
* `Course` — the ways in which a step can go that starts a playlist.
* `DirectPlay`, `DirectVolume` — how the steps of the backend `airplay` end.
* `airplay_steps_follow_script` — they end like that.
-/

namespace RoomAudio

variable {σ α β : Type}

def Smooth (l : List Exchange) : Prop := ∀ x ∈ l, x.failure? = none

@[simp] theorem smooth_nil : Smooth [] := by simp [Smooth]

@[simp] theorem smooth_append {l l' : List Exchange} : Smooth (l ++ l') ↔ Smooth l ∧ Smooth l' :=
  List.forall_mem_append

@[simp] theorem smooth_singleton {x : Exchange} : Smooth [x] ↔ x.failure? = none := by
  simp [Smooth]

/-- The first exchange that failed is the last one, and its failure is reported. -/
def Breaks (failure : Failure) (l : List Exchange) : Prop :=
  ∃ before x cause, l = before ++ [x] ∧ Smooth before ∧ x.failure? = some cause ∧
    failure = x.command.reported cause

/-! ## Scripts -/

/-- How a computation ends that was to give the commands of `script` one after the other and has
made the exchanges `l`. -/
inductive Follows (script : List Command) : Except Failure α → List Exchange → Prop
  | finished {a : α} {l : List Exchange} (given : l.map Exchange.command = script)
      (smooth : Smooth l) : Follows script (.ok a) l
  | stopped {failure : Failure} {l : List Exchange} (given : l.map Exchange.command <+: script)
      (breaks : Breaks failure l) : Follows script (.error failure) l

/-- Exchanges that went well may stand in front of the one that failed. -/
theorem Breaks.behind {failure : Failure} {l l' : List Exchange} (smooth : Smooth l)
    (h : Breaks failure l') : Breaks failure (l ++ l') := by
  obtain ⟨before, x, cause, rfl, smooth', failed, reported⟩ := h
  exact ⟨l ++ before, x, cause, (List.append_assoc _ _ _).symm,
    smooth_append.mpr ⟨smooth, smooth'⟩, failed, reported⟩

theorem Breaks.not_smooth {failure : Failure} {l : List Exchange} (h : Breaks failure l) :
    ¬ Smooth l := by
  obtain ⟨before, x, cause, rfl, -, failed, -⟩ := h
  simp [failed]

namespace Follows

variable {script more : List Command} {l l' : List Exchange}

theorem append {a : α} {r : Except Failure β} (first : Follows script (.ok a) l)
    (rest : Follows more r l') : Follows (script ++ more) r (l ++ l') := by
  obtain ⟨given, smooth⟩ := first
  cases rest with
  | finished given' smooth' =>
    exact .finished (by simp [given, given']) (smooth_append.mpr ⟨smooth, smooth'⟩)
  | stopped given' breaks =>
    refine .stopped ?_ (breaks.behind smooth)
    rw [List.map_append, given]
    exact (List.prefix_append_right_inj script).mpr given'

/-- What would have come afterwards does not matter to a computation that failed. -/
theorem extend {failure : Failure} (h : Follows script (.error failure : Except Failure α) l)
    (more : List Command) : Follows (script ++ more) (.error failure : Except Failure β) l := by
  cases h with
  | stopped given breaks => exact .stopped (given.trans (List.prefix_append _ _)) breaks

/-- Commands are given in the order of the script, and no others. -/
theorem prefix_script {r : Except Failure α} (h : Follows script r l) :
    l.map Exchange.command <+: script := by
  cases h with
  | finished given => exact given ▸ List.prefix_rfl
  | stopped given => exact given

/-- All went well exactly if the whole script was given without a failure. -/
theorem ok_iff {r : Except Failure Unit} (h : Follows script r l) :
    r = .ok () ↔ l.map Exchange.command = script ∧ Smooth l := by
  cases h with
  | finished given smooth => exact ⟨fun _ => ⟨given, smooth⟩, fun _ => rfl⟩
  | stopped given breaks =>
    exact ⟨nofun, fun ⟨_, smooth⟩ => absurd smooth breaks.not_smooth⟩

/-- A script is left at the first command that fails. -/
theorem breaks_of_error {failure : Failure}
    (h : Follows script (.error failure : Except Failure α) l) : Breaks failure l := by
  cases h with
  | stopped given breaks => exact breaks

end Follows

abbrev Run.Follows (x : Run σ α) (script : List Command) : Prop :=
  x.Yields (RoomAudio.Follows script)

namespace Run.Follows

variable {script more : List Command}

theorem pure (a : α) : (Pure.pure a : Run σ α).Follows [] := Yields.pure (.finished rfl smooth_nil)

theorem bind {x : Run σ α} {f : α → Run σ β} (first : x.Follows script)
    (next : ∀ a, (f a).Follows more) : (x >>= f).Follows (script ++ more) :=
  Yields.bind first (fun a _ h => (next a).mono fun _ _ rest => h.append rest)
    fun _ _ h => h.extend more

theorem forM {ι : Type} {items : List ι} {f : ι → Run σ Unit} {command : ι → Command}
    (each : ∀ a, (f a).Follows [command a]) : (items.forM f).Follows (items.map command) := by
  induction items with
  | nil => exact .pure ()
  | cons a items ih => exact .bind (each a) fun _ => ih

end Run.Follows

def volumeScript (rooms : List String) (value : Nat) : List Command :=
  rooms.map (.setVolume · value)

/-- The commands that prepare the rooms of a step before its playlist is chosen. -/
def openingScript (rooms : List String) (level : Option Nat) (shuffle : Option Bool) :
    List Command :=
  (if rooms.isEmpty then [] else [.setOutputs rooms]) ++
    (level.elim [] (volumeScript rooms) ++ shuffle.elim [] fun enabled => [.setShuffle enabled])

/-- The search of a step, which one with an identifier does not need. -/
def searchScript : Option String → Option String → List Command
  | none, some query => [.searchPlaylists query]
  | _, _ => []

def playScript (rooms : List String) (playlistId query : Option String) (level : Option Nat)
    (shuffle : Option Bool) (id : String) : List Command :=
  openingScript rooms level shuffle ++ (searchScript playlistId query ++ [.playPlaylist id])

namespace Environment

variable (e : Environment σ)

theorem send_follows {c : Command} (plain : ∀ failure, c.reported failure = failure) :
    (e.send c).Follows [c] := by
  refine e.yields_send fun answer => ?_
  cases answer with
  | ok a => exact .finished rfl (smooth_singleton.mpr rfl)
  | error cause =>
    exact .stopped List.prefix_rfl ⟨[], _, cause, rfl, smooth_nil, rfl, (plain cause).symm⟩

/-- Volumes are set room by room. -/
theorem setVolumes_follows (rooms : List String) (value : Nat) :
    (e.setVolumes rooms value).Follows (volumeScript rooms value) :=
  .forM fun _ => e.send_follows fun _ => rfl

end Environment

/-! ## The playlist -/

/-- What is said about a query to which the player finds nothing. -/
def nothingFound (query : String) : Failure := .because s!"no playlists found matching \"{query}\""

/-- How a step comes to know the identifier of its playlist, from its own one and its query: the
exchanges that this takes and what comes of them. -/
inductive Choosing :
    Option String → Option String → List Exchange → Except Failure String → Prop
  | own {id : String} {query : Option String} : Choosing (some id) query [] (.ok id)
  | found {query : String} {found : List Playlist} {playlist : Playlist}
      (best : Search.best? Playlist.name found query = some playlist) :
      Choosing none (some query) [⟨.searchPlaylists query, .ok found⟩] (.ok playlist.id)
  | nothing {query : String} :
      Choosing none (some query) [⟨.searchPlaylists query, .ok []⟩] (.error (nothingFound query))
  | broken {query : String} {cause : Failure} :
      Choosing none (some query) [⟨.searchPlaylists query, .error cause⟩]
        (.error ((Command.searchPlaylists query).reported cause))

/-- The ways in which a step can go that first gives the commands of `opening` and then starts a
playlist. -/
inductive Course (opening : List Command) (playlistId query : Option String) :
    Except Failure Unit → List Exchange → Prop
  | stopped {failure : Failure} {l : List Exchange}
      (ran : Follows opening (.error failure : Except Failure Unit) l) :
      Course opening playlistId query (.error failure) l
  | undecided {failure : Failure} {l asked : List Exchange} (ran : Follows opening (.ok ()) l)
      (choice : Choosing playlistId query asked (.error failure)) :
      Course opening playlistId query (.error failure) (l ++ asked)
  | played {id : String} {answer : Except Failure Unit} {l asked : List Exchange}
      (ran : Follows opening (.ok ()) l) (choice : Choosing playlistId query asked (.ok id)) :
      Course opening playlistId query answer (l ++ (asked ++ [⟨.playPlaylist id, answer⟩]))

/-- Further commands come first. -/
theorem Course.bind {x : Run σ α} {f : α → Run σ Unit} {script opening : List Command}
    {playlistId query : Option String} (first : x.Follows script)
    (next : ∀ a, (f a).Yields (Course opening playlistId query)) :
    (x >>= f).Yields (Course (script ++ opening) playlistId query) := by
  refine Run.Yields.bind first (fun a l ran => (next a).mono fun r l' course => ?_)
    fun failure l ran => .stopped (ran.extend opening)
  cases course with
  | stopped rest => exact .stopped (ran.append rest)
  | undecided rest choice =>
    rw [← List.append_assoc]
    exact .undecided (ran.append rest) choice
  | played rest choice =>
    rw [← List.append_assoc]
    exact .played (ran.append rest) choice

namespace Environment

variable (e : Environment σ)

/-- A search leads to an identifier, or to a complaint about what was not found. -/
theorem findPlaylist_choosing (query : String) :
    (e.findPlaylist query).Yields fun r l => Choosing none (some query) l r := by
  have search : (Run.within (e.send (.searchPlaylists query))
      s!"playlist search for \"{query}\" failed").Yields fun r l => ∃ answer,
        l = [⟨.searchPlaylists query, answer⟩] ∧
          r = answer.mapError (Command.searchPlaylists query).reported :=
    .within (e.yields_send fun answer => ⟨answer, rfl, rfl⟩)
  refine .bind search (fun found l told => ?_) fun failure l told => ?_
  · obtain ⟨answer, rfl, same⟩ := told
    obtain rfl := (mapError_eq_ok_iff _ _ _).mp same.symm
    split
    · rename_i playlist best
      exact .pure (.found best)
    · rename_i nothing
      obtain rfl := Search.best?_eq_none_iff.mp nothing
      exact .throw .nothing
  · obtain ⟨answer, rfl, same⟩ := told
    obtain ⟨cause, rfl, rfl⟩ := (mapError_eq_error_iff _ _ _).mp same.symm
    exact .broken

/-- An identifier of its own spares a step the search. -/
theorem choosePlaylist_choosing {playlistId query : Option String}
    (named : playlistId ≠ none ∨ query ≠ none) :
    (e.choosePlaylist playlistId query).Yields fun r l => Choosing playlistId query l r := by
  unfold choosePlaylist
  split
  · exact .pure .own
  · exact e.findPlaylist_choosing _
  · simp at named

/-- Rooms are prepared, a playlist is chosen, and then it is started. -/
theorem playDirectly_course (rooms : List String) {playlistId query : Option String}
    (level : Option Nat) (shuffle : Option Bool) (named : playlistId ≠ none ∨ query ≠ none) :
    (e.playDirectly rooms playlistId query level shuffle).Yields
      (Course (openingScript rooms level shuffle) playlistId query) := by
  have outputs : Run.Follows (if rooms.isEmpty then pure () else e.send (.setOutputs rooms))
      (if rooms.isEmpty then [] else [.setOutputs rooms]) := by
    split
    · exact .pure ()
    · exact e.send_follows fun _ => rfl
  have volumes : Run.Follows (level.forM fun value => e.setVolumes rooms value)
      (level.elim [] (volumeScript rooms)) := by
    cases level with
    | none => exact .pure ()
    | some value => exact e.setVolumes_follows rooms value
  have order : Run.Follows (shuffle.forM fun enabled => e.send (.setShuffle enabled))
      (shuffle.elim [] fun enabled => [.setShuffle enabled]) := by
    cases shuffle with
    | none => exact .pure ()
    | some enabled => exact e.send_follows fun _ => rfl
  have play : Run.Yields (do
      let id ← e.choosePlaylist playlistId query
      e.send (.playPlaylist id)) (Course [] playlistId query) := by
    have begun : Follows [] (.ok ()) [] := .finished rfl smooth_nil
    refine .bind (e.choosePlaylist_choosing named) (fun id asked choice => ?_)
      fun failure asked choice => .undecided begun choice
    exact e.yields_send fun answer => .played begun choice
  have all := Course.bind outputs fun _ => Course.bind volumes fun _ =>
    Course.bind order fun _ => play
  rw [List.append_nil] at all
  exact all

end Environment

/-! ## How the steps end -/

/-- How a step ends that plays something in rooms by controlling the player. -/
structure DirectPlay (rooms : List String) (playlistId query : Option String) (level : Option Nat)
    (shuffle : Option Bool) (r : Except Failure Unit) (l : List Exchange) : Prop where
  /-- The commands that were given are the first ones of the script. -/
  inOrder : ∃ id, l.map Exchange.command <+: playScript rooms playlistId query level shuffle id
  /-- The step succeeds exactly if all of them were given and everything went well. -/
  succeeds : r = .ok () ↔
    (∃ id, l.map Exchange.command = playScript rooms playlistId query level shuffle id) ∧ Smooth l
  /-- Otherwise the last command failed, or it was a search that found nothing. -/
  stops : ∀ failure, r = .error failure → Breaks failure l ∨
    ∃ before q, playlistId = none ∧ query = some q ∧ failure = nothingFound q ∧ Smooth before ∧
      l = before ++ [⟨.searchPlaylists q, .ok []⟩]
  /-- A playlist is started at the very end and after everything went well. It is the step's own
  one, or else the best one of those that were found just before. -/
  played : ∀ id answer, ⟨.playPlaylist id, answer⟩ ∈ l → ∃ before,
    l = before ++ [⟨.playPlaylist id, answer⟩] ∧ Smooth before ∧
      (playlistId = some id ∨ playlistId = none ∧ ∃ earlier q found playlist,
        query = some q ∧ before = earlier ++ [⟨.searchPlaylists q, .ok found⟩] ∧
          Search.best? Playlist.name found q = some playlist ∧ playlist.id = id)
  /-- A search that finds something leads to a playlist. -/
  answered : ∀ q found, ⟨.searchPlaylists q, .ok found⟩ ∈ l → found ≠ [] → ∃ playlist answer,
    Search.best? Playlist.name found q = some playlist ∧ ⟨.playPlaylist playlist.id, answer⟩ ∈ l

/-- How a step ends that sets the volume of rooms by controlling the player. -/
structure DirectVolume (rooms : List String) (value : Nat) (r : Except Failure Unit)
    (l : List Exchange) : Prop where
  /-- The volumes that were set are those of the first rooms. -/
  inOrder : l.map Exchange.command <+: volumeScript rooms value
  /-- The step succeeds exactly if there are rooms, all volumes were set and everything went
  well. -/
  succeeds : r = .ok () ↔
    rooms ≠ [] ∧ l.map Exchange.command = volumeScript rooms value ∧ Smooth l
  /-- Otherwise the last command failed. -/
  stops : ∀ failure, r = .error failure → rooms ≠ [] → Breaks failure l
  /-- A step without rooms fails and does not give any command. -/
  noRooms : rooms = [] → l = [] ∧ ∃ failure, r = .error failure

def Command.Prepares : Command → Prop
  | .setOutputs _ | .setVolume _ _ | .setShuffle _ => True
  | _ => False

/-- What comes before the search only prepares rooms. -/
theorem prepares_of_mem_openingScript {rooms : List String} {level : Option Nat}
    {shuffle : Option Bool} {c : Command} (h : c ∈ openingScript rooms level shuffle) :
    c.Prepares := by
  simp only [openingScript, List.mem_append] at h
  rcases h with outputs | volumes | order
  · split at outputs
    · simp at outputs
    · rw [List.mem_singleton.mp outputs]
      trivial
  · cases level with
    | none => simp at volumes
    | some value =>
      obtain ⟨room, -, rfl⟩ := List.mem_map.mp volumes
      trivial
  · cases shuffle with
    | none => simp at order
    | some enabled =>
      rw [List.mem_singleton.mp order]
      trivial

theorem Follows.prepares {rooms : List String} {level : Option Nat} {shuffle : Option Bool}
    {r : Except Failure Unit} {l : List Exchange}
    (h : Follows (openingScript rooms level shuffle) r l) {x : Exchange} (mem : x ∈ l) :
    x.command.Prepares :=
  prepares_of_mem_openingScript (h.prefix_script.subset (List.mem_map_of_mem mem))

namespace Choosing

variable {playlistId query : Option String} {asked : List Exchange} {id : String}
  {failure : Failure}

theorem smooth (h : Choosing playlistId query asked (.ok id)) : Smooth asked := by
  cases h with
  | own => exact smooth_nil
  | found best => exact smooth_singleton.mpr rfl

theorem map_command {r : Except Failure String} (h : Choosing playlistId query asked r) :
    asked.map Exchange.command = searchScript playlistId query := by
  cases h <;> rfl

/-- Nothing is asked for but a search. -/
theorem searches {r : Except Failure String} (h : Choosing playlistId query asked r) {x : Exchange}
    (mem : x ∈ asked) : ∃ q, x.command = .searchPlaylists q := by
  cases h with
  | own => simp at mem
  | found | nothing | broken =>
    obtain rfl := List.mem_singleton.mp mem
    exact ⟨_, rfl⟩

theorem stops {l : List Exchange} (smooth : Smooth l)
    (h : Choosing playlistId query asked (.error failure)) : Breaks failure (l ++ asked) ∨
      ∃ before q, playlistId = none ∧ query = some q ∧ failure = nothingFound q ∧ Smooth before ∧
        l ++ asked = before ++ [⟨.searchPlaylists q, .ok []⟩] := by
  cases h with
  | nothing => exact .inr ⟨l, _, rfl, rfl, rfl, smooth, rfl⟩
  | broken => exact .inl ⟨l, _, _, rfl, smooth, rfl, rfl⟩

end Choosing

/-! ## Steps of the backend `airplay` -/

section Steps

variable {rooms : List String} {playlistId query : Option String} {level : Option Nat}
  {shuffle : Option Bool} {value : Nat} {r : Except Failure Unit} {l asked : List Exchange}

namespace DirectPlay

/-- The rooms could not be prepared. -/
theorem of_stopped {failure : Failure}
    (ran : Follows (openingScript rooms level shuffle) (.error failure : Except Failure Unit) l) :
    DirectPlay rooms playlistId query level shuffle (.error failure) l where
  inOrder := ⟨"", ran.prefix_script.trans (List.prefix_append _ _)⟩
  succeeds := ⟨nofun, fun ⟨_, smooth⟩ => absurd smooth ran.breaks_of_error.not_smooth⟩
  stops := by
    rintro _ ⟨⟩
    exact .inl ran.breaks_of_error
  played _ _ mem := (ran.prepares mem).elim
  answered _ _ mem := (ran.prepares mem).elim

/-- The rooms are prepared, but no playlist was found. -/
theorem of_undecided {failure : Failure}
    (ran : Follows (openingScript rooms level shuffle) (.ok ()) l)
    (choice : Choosing playlistId query asked (.error failure)) :
    DirectPlay rooms playlistId query level shuffle (.error failure) (l ++ asked) := by
  obtain ⟨given, smooth⟩ := ran.ok_iff.mp rfl
  have commands : (l ++ asked).map Exchange.command =
      openingScript rooms level shuffle ++ searchScript playlistId query := by
    rw [List.map_append, given, choice.map_command]
  refine ⟨⟨"", ?_⟩, ⟨nofun, ?_⟩, ?_, ?_, ?_⟩
  · rw [commands]
    exact (List.prefix_append_right_inj _).mpr (List.prefix_append _ _)
  · rintro ⟨⟨id, whole⟩, -⟩
    rw [commands] at whole
    simp [playScript] at whole
  · rintro _ ⟨⟩
    exact choice.stops smooth
  · intro id answer mem
    rcases List.mem_append.mp mem with early | late
    · exact (ran.prepares early).elim
    · obtain ⟨q, search⟩ := choice.searches late
      cases search
  · intro q found mem nonempty
    rcases List.mem_append.mp mem with early | late
    · exact (ran.prepares early).elim
    · cases choice with
      | nothing =>
        cases List.mem_singleton.mp late
        exact absurd rfl nonempty
      | broken => cases List.mem_singleton.mp late

/-- The command that starts the playlist is the last one. -/
theorem of_played {id : String} (ran : Follows (openingScript rooms level shuffle) (.ok ()) l)
    (choice : Choosing playlistId query asked (.ok id)) :
    DirectPlay rooms playlistId query level shuffle r
      (l ++ (asked ++ [⟨.playPlaylist id, r⟩])) := by
  obtain ⟨given, smooth⟩ := ran.ok_iff.mp rfl
  have before : Smooth (l ++ asked) := smooth_append.mpr ⟨smooth, choice.smooth⟩
  rw [← List.append_assoc]
  have whole : ((l ++ asked) ++ [(⟨.playPlaylist id, r⟩ : Exchange)]).map Exchange.command =
      playScript rooms playlistId query level shuffle id := by
    simp [given, choice.map_command, playScript]
  have smooth_iff : Smooth ((l ++ asked) ++ [(⟨.playPlaylist id, r⟩ : Exchange)]) ↔ r = .ok () := by
    rw [smooth_append, and_iff_right before, smooth_singleton]
    cases r <;> simp [Exchange.failure?]
  refine ⟨⟨id, whole ▸ List.prefix_rfl⟩, ?_, ?_, ?_, ?_⟩
  · rw [smooth_iff, and_iff_right ⟨id, whole⟩]
  · rintro failure rfl
    exact .inl ⟨l ++ asked, _, failure, rfl, before, rfl, rfl⟩
  · intro id' answer mem
    rw [List.append_assoc] at mem
    rcases List.mem_append.mp mem with early | late
    · exact (ran.prepares early).elim
    rcases List.mem_append.mp late with search | last
    · obtain ⟨q, search⟩ := choice.searches search
      cases search
    cases List.mem_singleton.mp last
    refine ⟨l ++ asked, rfl, before, ?_⟩
    cases choice with
    | own => exact .inl rfl
    | found best => exact .inr ⟨rfl, l, _, _, _, rfl, rfl, best, rfl⟩
  · intro q found mem nonempty
    rw [List.append_assoc] at mem
    rcases List.mem_append.mp mem with early | late
    · exact (ran.prepares early).elim
    rcases List.mem_append.mp late with search | last
    · cases choice with
      | own => simp at search
      | @found _ _ playlist best =>
        cases List.mem_singleton.mp search
        exact ⟨playlist, r, best, by simp⟩
    · cases List.mem_singleton.mp last

theorem of_course (h : Course (openingScript rooms level shuffle) playlistId query r l) :
    DirectPlay rooms playlistId query level shuffle r l := by
  cases h with
  | stopped ran => exact .of_stopped ran
  | undecided ran choice => exact .of_undecided ran choice
  | played ran choice => exact .of_played ran choice

end DirectPlay

theorem Follows.directVolume (h : Follows (volumeScript rooms value) r l) (some : rooms ≠ []) :
    DirectVolume rooms value r l := by
  refine ⟨h.prefix_script, ?_, ?_, fun none => absurd none some⟩
  · rw [h.ok_iff, and_iff_right some]
  · rintro failure rfl -
    exact h.breaks_of_error

end Steps

theorem Environment.setVolume_directVolume (e : Environment σ) (shortcuts : Shortcuts)
    (rooms : List String) (value : Nat) :
    (e.setVolume shortcuts .airplay rooms value).Yields (DirectVolume rooms value) := by
  unfold setVolume
  cases rooms with
  | nil => exact .throw ⟨List.prefix_rfl, by simp, by simp, fun _ => ⟨rfl, _, rfl⟩⟩
  | cons room rooms =>
    exact (e.setVolumes_follows _ _).mono fun r l ran => ran.directVolume (by simp)

/-- The steps of the backend `airplay` give the commands of their scripts in order up to the first
one that fails, whatever the player answers. A step that is to search for its playlist starts the
best one of those it finds, and gives up if it finds none. -/
theorem airplay_steps_follow_script (e : Environment σ) (shortcuts : Shortcuts)
    (rooms : List String) :
    (∀ playlistId query level shuffle, playlistId ≠ none ∨ query ≠ none →
      e.StepsEnd shortcuts (.play .airplay rooms playlistId query level shuffle)
        (DirectPlay rooms playlistId query level shuffle)) ∧
    ∀ value, e.StepsEnd shortcuts (.volume .airplay rooms value) (DirectVolume rooms value) := by
  constructor
  · intro playlistId query level shuffle named
    exact .of_yields ((e.playDirectly_course rooms level shuffle named).mono
      fun r l course => .of_course course)
  · intro value
    exact .of_yields (e.setVolume_directVolume shortcuts rooms value)

/-- A step that prepares two rooms, searches for its playlist and starts the better one of two. -/
theorem airplay_steps_follow_script_jazz :
    ((none : Option String) ≠ none ∨ some "jazz" ≠ none) ∧
      (Script.environment { playlists := [⟨"p1", "Acid Jazz"⟩, ⟨"p2", "Jazz"⟩] }).StepsEnd {}
        (.play .airplay ["Den", "Bad"] none (some "jazz") (some 30) (some true))
        (DirectPlay ["Den", "Bad"] none (some "jazz") (some 30) (some true)) :=
  ⟨.inr (by simp), (airplay_steps_follow_script _ {} ["Den", "Bad"]).1 none (some "jazz") (some 30)
    (some true) (.inr (by simp))⟩

end RoomAudio
