import Mathlib.Data.List.TakeDrop
import RoomAudio.Player.Application
import RoomAudio.Proofs.Text.Pieces
import RoomAudio.Proofs.Text.Utf8

/-!
# Listings of playlists

The player application writes one line for each playlist: its identifier, a tab and its name. What
it writes is trimmed as a whole before it is cut into lines, so the first identifier and the last
name lose their blank ends before the others do. All identifiers and names are trimmed in the end,
and neither the first nor the last line loses its tab, so every playlist is read back. A line that
does not belong to a playlist is passed over, as long as it stands between two that do.

## Main definitions

* `Playlist.Listable` — a playlist that fits on a line.
* `Listing.Line`, `Listing.written` — the lines of a listing, and how they are written.
* `Listing.Enclosed` — a listing that begins and ends with playlists.
* `listing_read_back` — all the playlists of a listing are read back.
-/

namespace RoomAudio

open AppleScript Text

/-! ## Lines -/

namespace Playlist

def trimmed (p : Playlist) : Playlist := ⟨trim p.id, trim p.name⟩

/-- A playlist that can be written on a line: neither its identifier nor its name is blank, both
are on one line, and the identifier has no tab. -/
structure Listable (p : Playlist) : Prop where
  id_filled : blank p.id = false
  name_filled : blank p.name = false
  id_line : '\n' ∉ p.id.toList
  name_line : '\n' ∉ p.name.toList
  id_tab : '\t' ∉ p.id.toList

/-- The playlist once the front of its line was trimmed. -/
def cutFront (p : Playlist) : Playlist := { p with id := .ofList (p.id.toList.dropWhile isBlank) }

/-- The playlist once the back of its line was trimmed. -/
def cutBack (p : Playlist) : Playlist :=
  { p with name := .ofList (dropTailWhile isBlank p.name.toList) }

theorem trim_id_cutFront (p : Playlist) : trim p.cutFront.id = trim p.id := by
  rw [trim, cutFront, String.toList_ofList, trimChars_dropWhile, trim]

theorem trim_name_cutBack (p : Playlist) : trim p.cutBack.name = trim p.name := by
  rw [trim, cutBack, String.toList_ofList, trimChars_dropTailWhile, trim]

theorem trimmed_cutFront (p : Playlist) : p.cutFront.trimmed = p.trimmed := by
  rw [trimmed, trim_id_cutFront]
  rfl

theorem trimmed_cutBack (p : Playlist) : p.cutBack.trimmed = p.trimmed := by
  rw [trimmed, trim_name_cutBack]
  rfl

variable {p : Playlist}

/-- Trimming the front of a line leaves it readable. -/
theorem Listable.cutFront (h : p.Listable) : p.cutFront.Listable := by
  have inside : ∀ c ∈ p.cutFront.id.toList, c ∈ p.id.toList := by
    intro c mem
    rw [Playlist.cutFront, String.toList_ofList] at mem
    exact (List.dropWhile_sublist _).subset mem
  have filled : blank p.cutFront.id = false := by
    rw [← blank_trim, trim_id_cutFront, blank_trim]
    exact h.id_filled
  exact ⟨filled, h.name_filled, fun mem => h.id_line (inside _ mem), h.name_line,
    fun mem => h.id_tab (inside _ mem)⟩

/-- Trimming the back of a line leaves it readable. -/
theorem Listable.cutBack (h : p.Listable) : p.cutBack.Listable := by
  have inside : ∀ c ∈ p.cutBack.name.toList, c ∈ p.name.toList := by
    intro c mem
    rw [Playlist.cutBack, String.toList_ofList] at mem
    exact (List.rdropWhile_prefix _ _).subset mem
  have filled : blank p.cutBack.name = false := by
    rw [← blank_trim, trim_name_cutBack, blank_trim]
    exact h.name_filled
  exact ⟨h.id_filled, filled, h.id_line, fun mem => h.name_line (inside _ mem), h.id_tab⟩

end Playlist

namespace Listing

/-- A line of a listing: that of a playlist, or any other text. -/
inductive Line where
  | playlist (p : Playlist)
  | other (text : String)

namespace Line

def text : Line → List Char
  | .playlist p => p.id.toList ++ '\t' :: p.name.toList
  | .other text => text.toList

def playlist? : Line → Option Playlist
  | .playlist p => some p
  | .other _ => none

/-- A line that is read as it is meant: it is that of a playlist, or it has no tab or nothing but
blank characters in front of the first one. -/
def WellFormed : Line → Prop
  | .playlist p => p.Listable
  | .other text => '\n' ∉ text.toList ∧
    ('\t' ∈ text.toList → (text.toList.takeWhile (· != '\t')).all isBlank = true)

end Line

theorem Line.playlist_of_isSome {line : Line} (h : line.playlist?.isSome = true) :
    ∃ p, line = .playlist p := by
  cases line with
  | playlist p => exact ⟨p, rfl⟩
  | other text => cases h

def written (lines : List Line) : List Char := lines.flatMap fun line => line.text ++ ['\n']

/-- A listing whose first and last line belong to playlists. -/
structure Enclosed (lines : List Line) : Prop where
  first : ∀ line ∈ lines.head?, line.playlist?.isSome = true
  last : ∀ line ∈ lines.getLast?, line.playlist?.isSome = true

/-! ## Reading lines -/

theorem ne_tab_of_mem {id : List Char} (tab : '\t' ∉ id) : ∀ c ∈ id, (c != '\t') = true := by
  intro c mem
  rw [bne_iff_ne]
  rintro rfl
  exact tab mem

theorem takeWhile_tab {id : List Char} (name : List Char) (tab : '\t' ∉ id) :
    (id ++ '\t' :: name).takeWhile (· != '\t') = id := by
  rw [List.takeWhile_append_of_pos (ne_tab_of_mem tab)]
  simp

/-- A line is read as its parts are, if the first of them has no tab. -/
theorem playlistOf?_append {id : List Char} (name : List Char) (tab : '\t' ∉ id) :
    playlistOf? (id ++ '\t' :: name) =
      if (trimChars id).isEmpty then none
      else some ⟨.ofList (trimChars id), .ofList (trimChars name)⟩ := by
  have back : (id ++ '\t' :: name).dropWhile (· != '\t') = '\t' :: name := by
    rw [List.dropWhile_append_of_pos (ne_tab_of_mem tab)]
    simp
  rw [playlistOf?, List.span_eq_takeWhile_dropWhile, takeWhile_tab name tab, back]

theorem playlistOf?_of_no_tab {line : List Char} (tab : '\t' ∉ line) :
    playlistOf? line = none := by
  have back : line.dropWhile (· != '\t') = [] := List.dropWhile_eq_nil_iff.mpr (ne_tab_of_mem tab)
  rw [playlistOf?, List.span_eq_takeWhile_dropWhile, back]

/-- The two ways a line can be: with a first tab, or without any. -/
theorem tab_cases (line : List Char) :
    '\t' ∉ line ∨ ∃ id name, '\t' ∉ id ∧ line = id ++ '\t' :: name := by
  by_cases tab : '\t' ∈ line
  · obtain ⟨id, name, rfl, free⟩ := List.eq_append_cons_of_mem tab
    exact .inr ⟨id, name, free, rfl⟩
  · exact .inl tab

/-- A line is read as it is meant. -/
theorem playlistOf?_text {line : Line} (h : line.WellFormed) :
    playlistOf? line.text = line.playlist?.map Playlist.trimmed := by
  cases line with
  | playlist p =>
    have filled : (trimChars p.id.toList).isEmpty = false := by
      rw [List.isEmpty_eq_false_iff, Ne, trimChars_eq_nil_iff]
      exact ne_true_of_eq_false h.id_filled
    rw [Line.text, playlistOf?_append _ h.id_tab, filled]
    rfl
  | other text =>
    rcases tab_cases text.toList with free | ⟨id, name, free, same⟩
    · exact playlistOf?_of_no_tab free
    · have front : text.toList.takeWhile (· != '\t') = id := by
        rw [same]
        exact takeWhile_tab name free
      have blank : trimChars id = [] := by
        rw [trimChars_eq_nil_iff, ← front]
        exact h.2 (by simp [same])
      rw [Line.text, same, playlistOf?_append _ free, blank]
      rfl

/-! ## Reading listings -/

/-- Lines are read one by one. -/
theorem playlistsOf_append (a b : List Char) :
    playlistsOf (a ++ '\n' :: b) = playlistsOf a ++ playlistsOf b := by
  simp only [playlistsOf, splitOn_eq_splitOnP]
  rw [List.splitOnP_append_cons a b (by decide), List.filterMap_append]

theorem playlistsOf_line {line : List Char} (one : '\n' ∉ line) :
    playlistsOf line = (playlistOf? line).toList := by
  have whole : line.splitOnP (· == '\n') = [line] := by
    refine List.splitOnP_eq_singleton fun c mem => ?_
    rw [beq_eq_false_iff_ne]
    rintro rfl
    exact one mem
  rw [playlistsOf, splitOn_eq_splitOnP, whole]
  cases found : playlistOf? line <;> simp [found]

theorem Line.WellFormed.one {line : Line} (h : line.WellFormed) : '\n' ∉ line.text := by
  cases line with
  | playlist p => simp [text, h.id_line, h.name_line]
  | other text => exact h.1

def readBack (lines : List Line) : List Playlist :=
  (lines.filterMap Line.playlist?).map Playlist.trimmed

theorem readBack_cons (line : Line) (lines : List Line) :
    readBack (line :: lines) = (line.playlist?.map Playlist.trimmed).toList ++ readBack lines := by
  cases line with
  | playlist p => rfl
  | other text => rfl

theorem readBack_append (lines lines' : List Line) :
    readBack (lines ++ lines') = readBack lines ++ readBack lines' := by
  simp [readBack]

/-- Lines are read whatever comes behind them. -/
theorem playlistsOf_written {lines : List Line} (h : ∀ line ∈ lines, line.WellFormed)
    (rest : List Char) :
    playlistsOf (written lines ++ rest) = readBack lines ++ playlistsOf rest := by
  induction lines with
  | nil => rfl
  | cons line lines ih =>
    have first := h line (by simp)
    have split : written (line :: lines) ++ rest =
        line.text ++ '\n' :: (written lines ++ rest) := by
      simp [written]
    rw [split, playlistsOf_append, playlistsOf_line first.one, playlistOf?_text first,
      ih fun line mem => h line (by simp [mem]), readBack_cons, List.append_assoc]

/-! ## Trimming listings -/

/-- What is blank in front of a listing belongs to its first identifier. -/
theorem dropWhile_written {p : Playlist} (filled : blank p.id = false) (lines : List Line) :
    (written (.playlist p :: lines)).dropWhile isBlank =
      written (.playlist p.cutFront :: lines) := by
  have kept : p.id.toList.dropWhile isBlank ≠ [] := by
    rw [Ne, List.dropWhile_eq_nil_iff, ← List.all_eq_true]
    exact ne_true_of_eq_false filled
  have front : written (.playlist p :: lines) =
      p.id.toList ++ ('\t' :: p.name.toList ++ '\n' :: written lines) := by
    simp [written, Line.text]
  rw [front, List.dropWhile_append, if_neg (by simpa using kept)]
  simp [written, Line.text, Playlist.cutFront]

/-- What is blank behind a listing belongs to its last name. -/
theorem dropTailWhile_written {p : Playlist} (filled : blank p.name = false) (lines : List Line) :
    dropTailWhile isBlank (written (lines ++ [.playlist p])) =
      written lines ++ (Line.playlist p.cutBack).text := by
  have kept : p.name.toList.reverse.dropWhile isBlank ≠ [] := by
    rw [Ne, List.dropWhile_eq_nil_iff, ← List.all_eq_true, List.all_reverse]
    exact ne_true_of_eq_false filled
  have back : (written (lines ++ [.playlist p])).reverse =
      '\n' :: (p.name.toList.reverse ++ '\t' :: (written lines ++ p.id.toList).reverse) := by
    simp [written, Line.text]
  rw [dropTailWhile, back, List.dropWhile_cons_of_pos (by decide), List.dropWhile_append,
    if_neg (by simpa using kept)]
  simp [Line.text, Playlist.cutBack, dropTailWhile]

/-- What is left of a listing are its lines, of which the first and the last one were cut. -/
theorem exists_trimChars_written {lines : List Line} (filled : lines ≠ [])
    (h : ∀ line ∈ lines, line.WellFormed) (enclosed : Enclosed lines) :
    ∃ (front : List Line) (p : Playlist), (∀ line ∈ front, line.WellFormed) ∧ p.Listable ∧
      trimChars (written lines) = written front ++ (Line.playlist p).text ∧
      readBack (front ++ [.playlist p]) = readBack lines := by
  cases lines with
  | nil => exact absurd rfl filled
  | cons first rest =>
    obtain ⟨p, rfl⟩ := Line.playlist_of_isSome (enclosed.first first rfl)
    have listable : p.Listable := h (.playlist p) (by simp)
    -- The line that is cut in front can be the last one as well.
    have all : ∀ line ∈ Line.playlist p.cutFront :: rest, line.WellFormed := by
      intro line mem
      rcases List.mem_cons.mp mem with rfl | mem
      · exact listable.cutFront
      · exact h line (by simp [mem])
    have last : ∀ line ∈ (Line.playlist p.cutFront :: rest).getLast?,
        line.playlist?.isSome = true := by
      cases rest with
      | nil => simp [Line.playlist?]
      | cons second rest => simpa using enclosed.last
    have cut : trimChars (written (.playlist p :: rest)) =
        dropTailWhile isBlank (written (.playlist p.cutFront :: rest)) := by
      rw [trimChars, dropWhile_written listable.id_filled]
    have same : readBack (.playlist p.cutFront :: rest) = readBack (.playlist p :: rest) := by
      simp [readBack_cons, Line.playlist?, p.trimmed_cutFront]
    obtain ⟨front, line, split⟩ := List.eq_nil_or_concat'
      (Line.playlist p.cutFront :: rest) |>.resolve_left (by simp)
    rw [split] at all last cut same
    obtain ⟨q, rfl⟩ := Line.playlist_of_isSome (last line (by simp))
    have listable : q.Listable := all (.playlist q) (by simp)
    refine ⟨front, q.cutBack, fun line mem => all line (by simp [mem]), listable.cutBack, ?_, ?_⟩
    · rw [cut, dropTailWhile_written listable.name_filled]
    · rw [← same, readBack_append, readBack_append]
      simp [readBack_cons, Line.playlist?, q.trimmed_cutBack]

/-- A listing is read back from what is left of it. -/
theorem playlistsOf_trimChars_written {lines : List Line} (h : ∀ line ∈ lines, line.WellFormed)
    (enclosed : Enclosed lines) : playlistsOf (trimChars (written lines)) = readBack lines := by
  by_cases filled : lines = []
  · rw [filled]
    rfl
  · obtain ⟨front, p, all, listable, trimmed, same⟩ := exists_trimChars_written filled h enclosed
    have last : (Line.playlist p).WellFormed := listable
    rw [trimmed, playlistsOf_written all, playlistsOf_line last.one, playlistOf?_text last, ← same,
      readBack_append]
    rfl

end Listing

/-- The output of a program that ends at once and without a failure. -/
theorem Processes.run_written {p : Processes} {deadline : Option Nat} {arguments : List String}
    {text : List Char} {stderr : List UInt8} {later : List ProcessEnd}
    (clean : (arguments.any fun a => a.toList.any (·.toNat == 0)) = false)
    (untripped : CancelSignal.check ⟨deadline, p.interrupted⟩ p.time = none)
    (next : p.next = .exit 0 (Utf8.encode text) stderr :: later) (program : String) :
    p.run true deadline program arguments =
      (.ok text, { p with next := later, started := p.started ++ [(program, arguments)] }) := by
  have ended : await deadline program (.exit 0 (Utf8.encode text) stderr) p.time =
      (.ok text, p.time) := by
    simp [await, outcome?, textOf, Utf8.decode_encode, le_stopped]
  simp [run, clean, untripped, next, ended]

/-- Playlists that fit on lines are all read back from their listing, in their order and with
trimmed identifiers and names. Lines without a tab, or with nothing but blank characters in front of
the first one, make no difference when they stand between lines of playlists. This is also what a
search returns if the program writes the listing. -/
theorem listing_read_back {playlists : List Playlist} (listable : ∀ p ∈ playlists, p.Listable) :
    let readBack := playlists.map Playlist.trimmed
    playlistsOf (trimChars (Listing.written (playlists.map .playlist))) = readBack ∧
    ∀ lines : List Listing.Line, lines.filterMap Listing.Line.playlist? = playlists →
      (∀ text, .other text ∈ lines → (Listing.Line.other text).WellFormed) →
      Listing.Enclosed lines →
      playlistsOf (trimChars (Listing.written lines)) = readBack ∧
      ∀ (a : Application) (query : String) (s s' : Processes),
        s.run a.installed a.deadline (a.program (.searchPlaylists query)).1
          (a.program (.searchPlaylists query)).2 = (.ok (Listing.written lines), s') →
        a.call (.searchPlaylists query) s = (.ok readBack, s') := by
  intro readBack
  have read : ∀ lines : List Listing.Line, lines.filterMap Listing.Line.playlist? = playlists →
      (∀ text, .other text ∈ lines → (Listing.Line.other text).WellFormed) →
      Listing.Enclosed lines → playlistsOf (trimChars (Listing.written lines)) = readBack := by
    intro lines same others enclosed
    have all : ∀ line ∈ lines, line.WellFormed := by
      intro line mem
      cases line with
      | playlist p =>
        have listed : p ∈ lines.filterMap Listing.Line.playlist? :=
          List.mem_filterMap.mpr ⟨_, mem, rfl⟩
        exact listable p (same ▸ listed)
      | other text => exact others text mem
    rw [Listing.playlistsOf_trimChars_written all enclosed, Listing.readBack, same]
  refine ⟨read _ ?_ ?_ ⟨?_, ?_⟩, fun lines same others enclosed => ?_⟩
  · rw [List.filterMap_map]
    exact List.filterMap_some
  · simp
  · intro line mem
    obtain ⟨p, -, rfl⟩ := List.mem_map.mp (List.mem_of_mem_head? mem)
    rfl
  · intro line mem
    obtain ⟨p, -, rfl⟩ := List.mem_map.mp (List.mem_of_mem_getLast? mem)
    rfl
  · have whole := read lines same others enclosed
    refine ⟨whole, fun a query s s' found => ?_⟩
    rw [← whole, Application.call]
    simp only [found]
    rfl

/-- Two playlists whose identifiers and names have blank ends and tabs, and two lines between
them. -/
def Listing.jazz : List Listing.Line :=
  [.playlist ⟨" A1", "Morning\tJazz\r"⟩, .other "malformed", .other " \tJazz",
    .playlist ⟨"B2", "Jazz\u00A0"⟩]

theorem listing_read_back_jazz :
    playlistsOf (trimChars (Listing.written Listing.jazz)) =
      [⟨"A1", "Morning\tJazz"⟩, ⟨"B2", "Jazz"⟩] ∧
    (Application.call ⟨"Music", true, none⟩ (.searchPlaylists "Jazz")
      { next := [.exit 0 (Utf8.encode (Listing.written Listing.jazz)) []] }).1 =
        .ok [⟨"A1", "Morning\tJazz"⟩, ⟨"B2", "Jazz"⟩] := by
  let playlists : List Playlist := [⟨" A1", "Morning\tJazz\r"⟩, ⟨"B2", "Jazz\u00A0"⟩]
  have listable : ∀ p ∈ playlists, p.Listable := by
    intro p mem
    rcases List.mem_pair.mp mem with rfl | rfl <;>
      exact ⟨by decide, by decide, by decide, by decide, by decide⟩
  have others : ∀ text, .other text ∈ Listing.jazz → (Listing.Line.other text).WellFormed := by
    intro text mem
    have known : text = "malformed" ∨ text = " \tJazz" := by simpa [Listing.jazz] using mem
    rcases known with rfl | rfl <;> exact ⟨by decide, by decide⟩
  have enclosed : Listing.Enclosed Listing.jazz := ⟨by simp [Listing.jazz, Listing.Line.playlist?],
    by simp [Listing.jazz, Listing.Line.playlist?]⟩
  have readBack : playlists.map Playlist.trimmed =
      [⟨"A1", "Morning\tJazz"⟩, ⟨"B2", "Jazz"⟩] := by decide
  obtain ⟨read, called⟩ := (listing_read_back listable).2 Listing.jazz rfl others enclosed
  rw [readBack] at read called
  refine ⟨read, ?_⟩
  let music : Application := ⟨"Music", true, none⟩
  let script := music.program (.searchPlaylists "Jazz")
  have clean : (script.2.any fun a => a.toList.any (·.toNat == 0)) = false := by decide +kernel
  let answering : Processes :=
    { next := [.exit 0 (Utf8.encode (Listing.written Listing.jazz)) []] }
  have written := @Processes.run_written answering none _ _ _ _ clean rfl rfl script.1
  have answered := called music "Jazz" _ _ written
  exact congrArg Prod.fst answered

end RoomAudio
