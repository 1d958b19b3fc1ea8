import RoomAudio.Proofs.Player.Transcript

/-!
# How steps end

A step that goes through the player's answers in order ends in one of three ways: every exchange
and the step itself went well, the step gave up by itself after exchanges that went well, or an
exchange failed. In the last case nothing is asked of the player afterwards and the step reports
that failure.

## Main definitions

* `Command.reported` — what a step reports about a failed command.
* `Ending` — the three ways to end, for a result and the exchanges that led to it.
* `Parameters.perform_ends` — every step ends in one of these ways.
-/

namespace RoomAudio

variable {σ α β : Type}

def Command.reported : Command → Failure → Failure
  | .searchPlaylists query, failure => failure.within s!"playlist search for \"{query}\" failed"
  | _, failure => failure

/-- How a computation ends that has made the exchanges `l`. The failures by which it may give up
by itself are those in `own`. -/
inductive Ending (own : Failure → Prop) : Except Failure α → List Exchange → Prop
  | done {a : α} {l : List Exchange} (smooth : ∀ x ∈ l, x.failure? = none) : Ending own (.ok a) l
  | refused {failure : Failure} {l : List Exchange} (smooth : ∀ x ∈ l, x.failure? = none)
      (h : own failure) : Ending own (.error failure) l
  | broken {x : Exchange} {failure : Failure} {l : List Exchange}
      (smooth : ∀ x ∈ l, x.failure? = none) (h : x.failure? = some failure) :
      Ending own (.error (x.command.reported failure)) (l ++ [x])

namespace Ending

variable {own : Failure → Prop}

/-- Nothing has failed in a computation that succeeds. -/
theorem smooth_of_ok {a : α} {l : List Exchange} (h : Ending own (.ok a) l) :
    ∀ x ∈ l, x.failure? = none := by
  cases h with
  | done smooth => exact smooth

theorem single_ok {c : Command} (answer : c.Answer) (a : α) : Ending own (.ok a) [⟨c, .ok answer⟩] :=
  .done (by simp [Exchange.failure?])

theorem single_error (c : Command) (failure : Failure) :
    Ending own (.error (c.reported failure) : Except Failure α) [⟨c, .error failure⟩] :=
  broken (x := ⟨c, .error failure⟩) (l := []) (by simp) rfl

theorem append {r : Except Failure α} {l l' : List Exchange} (smooth : ∀ x ∈ l, x.failure? = none)
    (h : Ending own r l') : Ending own r (l ++ l') := by
  have both {m : List Exchange} (hm : ∀ x ∈ m, x.failure? = none) :
      ∀ x ∈ l ++ m, x.failure? = none := by
    intro x hx
    rcases List.mem_append.mp hx with hx | hx
    · exact smooth x hx
    · exact hm x hx
  cases h with
  | done rest => exact done (both rest)
  | refused rest h => exact refused (both rest) h
  | broken rest h =>
    rw [← List.append_assoc]
    exact broken (both rest) h

theorem error_of_error {failure : Failure} {l : List Exchange}
    (h : Ending own (.error failure : Except Failure α) l) :
    Ending own (.error failure : Except Failure β) l := by
  cases h with
  | refused smooth h => exact refused smooth h
  | broken smooth h => exact broken smooth h

/-- A failed exchange is the last one, and its failure is what is reported. -/
theorem eq_of_failure {r : Except Failure α} {before after : List Exchange} {x : Exchange}
    {failure : Failure} (h : Ending own r (before ++ x :: after))
    (hx : x.failure? = some failure) :
    after = [] ∧ r = .error (x.command.reported failure) := by
  generalize hl : before ++ x :: after = l at h
  have clash {m : List Exchange} (smooth : ∀ y ∈ m, y.failure? = none) : x ∉ m := by
    intro hm
    rw [smooth x hm] at hx
    cases hx
  cases h with
  | done smooth => exact absurd (by simp [← hl]) (clash smooth)
  | refused smooth => exact absurd (by simp [← hl]) (clash smooth)
  | @broken y _ m smooth hy =>
    rcases List.eq_nil_or_concat after with rfl | ⟨after, z, rfl⟩
    · obtain ⟨rfl, hxy⟩ := List.append_inj' hl rfl
      obtain rfl : x = y := by simpa using hxy
      rw [hx] at hy
      cases hy
      exact ⟨rfl, rfl⟩
    · rw [List.concat_eq_append, ← List.cons_append, ← List.append_assoc] at hl
      obtain ⟨hm, -⟩ := List.append_inj' hl rfl
      exact absurd (by simp [← hm]) (clash smooth)

end Ending

/-- A computation ends as `Ending` says, whatever it adds to the session. -/
abbrev Run.Ends (x : Run σ α) (own : Failure → Prop) : Prop := x.Yields (Ending own)

namespace Run.Ends

variable {own : Failure → Prop}

theorem pure (a : α) : (Pure.pure a : Run σ α).Ends own := Yields.pure (.done (by simp))

theorem throw {failure : Failure} (h : own failure) :
    (MonadExcept.throw failure : Run σ α).Ends own := Yields.throw (.refused (by simp) h)

theorem bind {x : Run σ α} {f : α → Run σ β} (first : x.Ends own) (next : ∀ a, (f a).Ends own) :
    (x >>= f).Ends own :=
  Yields.bind first (fun a _ h => (next a).mono fun _ _ rest => rest.append h.smooth_of_ok)
    fun _ _ h => h.error_of_error

theorem forM {ι : Type} {items : List ι} {f : ι → Run σ Unit} (each : ∀ a ∈ items, (f a).Ends own) :
    (items.forM f).Ends own :=
  Yields.forM (.done (by simp)) (fun _ _ _ first rest => rest.append first.smooth_of_ok) each

end Run.Ends

namespace Environment

variable (e : Environment σ) {own : Failure → Prop}

/-- A single command ends a computation if it fails. -/
theorem send_ends {c : Command} (plain : ∀ failure, c.reported failure = failure) :
    (e.send c).Ends own := by
  refine e.yields_send fun answer => ?_
  cases answer with
  | ok a => exact .single_ok a a
  | error failure =>
    have h : Ending own (.error (c.reported failure) : Except Failure c.Answer) _ :=
      .single_error c failure
    rwa [plain] at h

/-- A search that fails is reported with its query. -/
theorem search_ends (query : String) :
    (Run.within (e.send (.searchPlaylists query))
      s!"playlist search for \"{query}\" failed").Ends own := by
  refine .within (e.yields_send fun answer => ?_)
  cases answer with
  | ok found => exact .single_ok found found
  | error failure => exact .single_error (.searchPlaylists query) failure

theorem checkSignal_ends (h : ∀ c : Cancellation, own (.because c.message)) :
    e.checkSignal.Ends own :=
  e.yields_checkSignal (.done (by simp)) fun c => .refused (by simp) (h c)

theorem waitFor_ends (state : PlaybackState) (label : String) (timeout : Nat)
    (late : own (.because (timeoutMessage state label)))
    (h : ∀ c : Cancellation, own (.because c.message)) :
    (e.waitFor state label timeout).Ends own := by
  refine e.yields_waitFor fun _ => e.yields_poll ?_ ?_ ?_ ?_ ?_
  · exact fun failure => .single_error .playbackState failure
  · exact fun report _ => .single_ok (c := .playbackState) report ()
  · exact fun report _ => .refused (by simp [Exchange.failure?]) late
  · exact fun report _ c => .refused (by simp [Exchange.failure?]) (h c)
  · exact fun report r l _ rest => rest.append (l := [_]) (by simp [Exchange.failure?])

end Environment

/-! ## Failures of the steps themselves -/

@[simp] theorem Failure.message_because (cause : String) :
    (Failure.because cause).message = cause := by
  simp [Failure.message, Failure.because]

/-- A failure that does not complain about a step without a playlist. -/
def Failure.IsOther (failure : Failure) : Prop :=
  failure.message ≠ Environment.nothingToPlay.message

/-- The complaint about a step without a playlist begins with a `p`. -/
theorem Failure.isOther_because {cause : String} (h : cause.toList.head? ≠ some 'p') :
    (Failure.because cause).IsOther := by
  intro same
  rw [Environment.nothingToPlay, message_because, message_because] at same
  exact h (by rw [same]; rfl)

theorem Cancellation.isOther (c : Cancellation) : (Failure.because c.message).IsOther :=
  Failure.isOther_because (by cases c <;> decide)

theorem isOther_timeoutMessage (state : PlaybackState) (label : String) :
    (Failure.because (Environment.timeoutMessage state label)).IsOther := by
  refine Failure.isOther_because ?_
  unfold Environment.timeoutMessage
  generalize state.name = name
  simp [toString]

/-! ## Looking up all rooms -/

/-- The lookup fails at the first room without a shortcut. -/
theorem mapRooms_eq (lookup : String → Option String) (complaint : String → String)
    (rooms : List String) :
    mapRooms lookup complaint rooms =
      match rooms.find? fun room => (lookup room).isNone with
      | some room => .error (.because (complaint room))
      | none => .ok (rooms.filterMap lookup) := by
  induction rooms with
  | nil => rfl
  | cons room rooms ih =>
    rw [mapRooms]
    cases found : lookup room with
    | none => simp [found]
    | some shortcut =>
      rw [ih, List.find?_cons_of_neg (by simp [found]), List.filterMap_cons_some found]
      cases rooms.find? fun room => (lookup room).isNone <;> rfl

/-- A complaint is about a room that is not mapped. -/
theorem mapRooms_error {lookup : String → Option String} {complaint : String → String}
    {rooms : List String} {failure : Failure}
    (h : mapRooms lookup complaint rooms = .error failure) :
    ∃ room ∈ rooms, lookup room = none ∧ failure = .because (complaint room) := by
  rw [mapRooms_eq] at h
  split at h
  · rename_i room first
    cases h
    exact ⟨room, List.mem_of_find?_eq_some first, by simpa using List.find?_some first, rfl⟩
  · cases h

/-! ## Every step ends like that -/

namespace Environment

variable (e : Environment σ) (shortcuts : Shortcuts) {own : Failure → Prop}

theorem setVolumes_ends (rooms : List String) (value : Nat) : (e.setVolumes rooms value).Ends own :=
  .forM fun _ _ => e.send_ends fun _ => rfl

section Steps

variable (other : ∀ failure : Failure, failure.IsOther → own failure)
include other

theorem findPlaylist_ends (query : String) : (e.findPlaylist query).Ends own := by
  refine .bind (e.search_ends query) fun found => ?_
  split
  · exact .pure _
  · exact .throw (other _ (Failure.isOther_because (by simp [toString])))

theorem runShortcuts_ends (names : List String) : (e.runShortcuts names).Ends own :=
  .forM fun _ _ => .bind (e.checkSignal_ends fun c => other _ c.isOther) fun _ =>
    e.send_ends fun _ => rfl

/-- Complaints about rooms are told apart by how they begin. -/
theorem runMapped_ends {lookup : String → Option String} {complaint : String → String}
    (rooms : List String) (h : ∀ room, (complaint room).toList.head? ≠ some 'p') :
    (e.runMapped lookup complaint rooms).Ends own := by
  unfold runMapped
  split
  · rename_i failure unmapped
    obtain ⟨room, -, -, rfl⟩ := mapRooms_error unmapped
    exact .throw (other _ (Failure.isOther_because (h room)))
  · exact e.runShortcuts_ends other _

/-- Besides failures of the player there is only the complaint about a step that names nothing. -/
theorem choosePlaylist_ends (playlistId query : Option String)
    (nothing : playlistId = none → query = none → own nothingToPlay) :
    (e.choosePlaylist playlistId query).Ends own := by
  unfold choosePlaylist
  split
  · exact .pure _
  · exact e.findPlaylist_ends other _
  · exact .throw (nothing rfl rfl)

theorem playDirectly_ends (rooms : List String) (playlistId query : Option String)
    (level : Option Nat) (shuffle : Option Bool)
    (nothing : playlistId = none → query = none → own nothingToPlay) :
    (e.playDirectly rooms playlistId query level shuffle).Ends own := by
  have outputs : Run.Ends (if rooms.isEmpty then pure () else e.send (.setOutputs rooms)) own := by
    split
    · exact .pure ()
    · exact e.send_ends fun _ => rfl
  refine .bind outputs fun _ => .bind ?_ fun _ => .bind ?_ fun _ =>
    .bind (e.choosePlaylist_ends other _ _ nothing) fun _ => e.send_ends fun _ => rfl
  · cases level with
    | none => exact .pure ()
    | some value => exact e.setVolumes_ends rooms value
  · cases shuffle with
    | none => exact .pure ()
    | some enabled => exact e.send_ends fun _ => rfl

theorem choosePlaylistName_ends (playlistId query : Option String)
    (nothing : playlistId = none → query = none → own nothingToPlay) :
    (e.choosePlaylistName playlistId query).Ends own := by
  unfold choosePlaylistName
  split
  · exact .pure _
  · refine .bind (e.send_ends fun _ => rfl) fun found => ?_
    split
    · exact .pure _
    · exact .throw (other _ (Failure.isOther_because (by simp [toString])))
  · exact .throw (nothing rfl rfl)

theorem playByShortcuts_ends (rooms : List String) (playlistId query : Option String)
    (nothing : playlistId = none → query = none → own nothingToPlay) :
    (e.playByShortcuts shortcuts rooms playlistId query).Ends own := by
  refine .bind (e.choosePlaylistName_ends other _ _ nothing) fun name => ?_
  unfold runPlaylistShortcuts
  split
  · exact .throw (other _ (Failure.isOther_because (by decide)))
  · exact e.runMapped_ends other _ fun room => by simp [toString]

theorem setVolume_ends (backend : Backend) (rooms : List String) (value : Nat) :
    (e.setVolume shortcuts backend rooms value).Ends own := by
  unfold setVolume
  split
  · exact .throw (other _ (Failure.isOther_because (by decide)))
  · cases backend with
    | airplay => exact e.setVolumes_ends rooms value
    | native =>
      refine e.runMapped_ends other _ fun room => ?_
      generalize value.repr = digits
      simp [toString]

end Steps

end Environment

/-- The step is to play something and does not say what. -/
def Parameters.NamesNothing : Parameters → Prop
  | .play _ _ playlistId query _ _ => playlistId = none ∧ query = none
  | _ => False

/-- Every step ends as `Ending` says. It complains about a missing playlist only if it names
none. -/
theorem Parameters.perform_ends (p : Parameters) (e : Environment σ) (shortcuts : Shortcuts) :
    Run.Ends (p.perform e shortcuts) fun failure => failure.IsOther ∨ p.NamesNothing := by
  have other {p : Parameters} (failure : Failure) (h : failure.IsOther) :
      failure.IsOther ∨ p.NamesNothing := .inl h
  cases p with
  | outputs backend rooms =>
    cases backend with
    | airplay => exact e.send_ends fun _ => rfl
    | native => exact .throw (other _ (Failure.isOther_because (by decide)))
  | play backend rooms playlistId query level shuffle =>
    cases backend with
    | airplay =>
      exact e.playDirectly_ends other _ _ _ _ _ fun noId noQuery => .inr ⟨noId, noQuery⟩
    | native => exact e.playByShortcuts_ends _ other _ _ _ fun noId noQuery => .inr ⟨noId, noQuery⟩
  | volume backend rooms value => exact e.setVolume_ends shortcuts other _ _ _
  | wait state timeout timeoutMs =>
    exact e.waitFor_ends _ _ _ (other _ (isOther_timeoutMessage _ _)) fun c => other _ c.isOther
  | transport action =>
    cases action
    exact e.send_ends fun _ => rfl

end RoomAudio
