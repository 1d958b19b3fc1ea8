import Mathlib.Data.List.Nodup
import Mathlib.Data.List.Perm.Basic
import RoomAudio.Proofs.Shortcuts
import RoomAudio.Proofs.Text.Case

/-!
# Spelling and order

Where no two names differ in the case of ASCII letters alone, neither the case of a name that is
looked up nor the order of a table makes a difference. In any table a name that is spelled as it
stands there has its own value.

## Main definitions

* `Table.DistinctUpToCase`, `Shortcuts.DistinctUpToCase` — names that differ in more than case.
* `Table.find?_eq_some_iff` — then a lookup is told by the entries alone.
* `Table.Rearranges`, `Shortcuts.Rearranges` — the same entries in another order.
* `Shortcuts.found_by_spelling` — which shortcuts are found, and what does not matter to that.
-/

namespace RoomAudio

open Text (sameUpToAsciiCase same_refl same_congr same_iff_asciiLower)

namespace Table

variable {α : Type} {t t' : Table α} {name key : String} {a : α}

/-! ## One table -/

theorem get?_eq_some_iff : t.get? name = some a ↔ (name, a) ∈ t.entries := by
  refine ⟨mem_of_get?, fun mem => ?_⟩
  obtain ⟨before, after, split⟩ := List.append_of_mem mem
  have new := t.nodup
  rw [split, List.map_append, List.map_cons, List.nodup_append] at new
  refine List.lookup_eq_some_iff.mpr ⟨before, after, split, fun e inFront => ?_⟩
  have other : e.1 ≠ name :=
    new.2.2 e.1 (List.mem_map_of_mem inFront) name List.mem_cons_self
  simpa using other.symm

/-- A name that is spelled as it stands in the table has its own value. -/
theorem find?_of_mem (mem : (name, a) ∈ t.entries) : t.find? name = some a := by
  rw [find?, get?_eq_some_iff.mpr mem]

/-- An entry is found under every spelling of its name, or another one is. -/
theorem exists_find?_of_entry (mem : (key, a) ∈ t.entries)
    (same : sameUpToAsciiCase key name = true) : ∃ b, t.find? name = some b := by
  unfold find?
  split
  · exact ⟨_, rfl⟩
  · have found : (t.entries.find? fun e => sameUpToAsciiCase e.1 name).isSome :=
      List.find?_isSome.mpr ⟨_, mem, same⟩
    obtain ⟨e, first⟩ := Option.isSome_iff_exists.mp found
    exact ⟨e.2, by rw [first]; rfl⟩

def smallNames (t : Table α) : List String := t.entries.map fun e => Text.asciiLower e.1

/-- No two names of the table are the same up to the case of ASCII letters. -/
def DistinctUpToCase (t : Table α) : Prop := t.smallNames.Nodup

instance : Decidable t.DistinctUpToCase := inferInstanceAs (Decidable t.smallNames.Nodup)

/-- Of entries with distinct names, the one whose name is looked up in any case is found. -/
theorem find?_eq_some_iff (distinct : t.DistinctUpToCase) :
    t.find? name = some a ↔ ∃ key, (key, a) ∈ t.entries ∧ sameUpToAsciiCase key name = true := by
  refine ⟨exists_entry_of_find?, ?_⟩
  rintro ⟨key, mem, same⟩
  obtain ⟨b, found⟩ := exists_find?_of_entry mem same
  obtain ⟨key', mem', same'⟩ := exists_entry_of_find? found
  have alike : Text.asciiLower key = Text.asciiLower key' :=
    (same_iff_asciiLower.mp same).trans (same_iff_asciiLower.mp same').symm
  obtain ⟨-, rfl⟩ := Prod.mk.inj (List.inj_on_of_nodup_map distinct mem mem' alike)
  exact found

/-! ## Other orders -/

/-- The names of `t` in another order, with values that are related to those in `t`. -/
def Rearranges (related : α → α → Prop) (t t' : Table α) : Prop :=
  ∃ middle, t.entries.Perm middle ∧
    List.Forall₂ (fun e e' => e.1 = e'.1 ∧ related e.2 e'.2) middle t'.entries

/-- What is in a list has a counterpart in the other one. -/
theorem exists_of_mem_left {β γ : Type} {R : β → γ → Prop} {l : List β} {l' : List γ} {b : β}
    (pairs : List.Forall₂ R l l') (mem : b ∈ l) : ∃ c ∈ l', R b c := by
  induction pairs with
  | nil => cases mem
  | cons pair _ ih =>
    rcases List.mem_cons.mp mem with rfl | later
    · exact ⟨_, List.mem_cons_self, pair⟩
    · obtain ⟨c, there, holds⟩ := ih later
      exact ⟨c, List.mem_cons_of_mem _ there, holds⟩

namespace Rearranges

variable {related : α → α → Prop}

theorem exists_right (h : Rearranges related t t') (mem : (key, a) ∈ t.entries) :
    ∃ a', (key, a') ∈ t'.entries ∧ related a a' := by
  obtain ⟨middle, perm, pairs⟩ := h
  obtain ⟨⟨_, a'⟩, there, rfl, holds⟩ := exists_of_mem_left pairs (perm.mem_iff.mp mem)
  exact ⟨a', there, holds⟩

/-- The other way round. -/
theorem flip (h : Rearranges related t t') : Rearranges (Function.swap related) t' t := by
  obtain ⟨middle, perm, pairs⟩ := h
  obtain ⟨middle', pairs', perm'⟩ := List.perm_comp_forall₂ perm pairs
  refine ⟨middle', perm'.symm, List.Forall₂.flip ?_⟩
  exact pairs'.imp fun e e' pair => ⟨pair.1.symm, pair.2⟩

theorem exists_left (h : Rearranges related t t') {a' : α} (mem : (key, a') ∈ t'.entries) :
    ∃ a, (key, a) ∈ t.entries ∧ related a a' :=
  h.flip.exists_right mem

/-- The order of entries does not matter for how their names differ. -/
theorem distinctUpToCase (h : Rearranges related t t') (distinct : t.DistinctUpToCase) :
    t'.DistinctUpToCase := by
  obtain ⟨middle, perm, pairs⟩ := h
  have names : middle.map (fun e => Text.asciiLower e.1) = t'.smallNames := by
    rw [smallNames, ← List.forall₂_eq_eq_eq, List.forall₂_map_left_iff,
      List.forall₂_map_right_iff]
    exact pairs.imp fun e e' pair => congrArg Text.asciiLower pair.1
  rw [DistinctUpToCase, ← names]
  exact (perm.map _).nodup_iff.mp distinct

end Rearranges

end Table

namespace Shortcuts

variable {s s' : Shortcuts} {room room' playlist playlist' name : String} {value : Nat}

/-- No two rooms are named the same up to case, and no two playlists of a room. -/
structure DistinctUpToCase (s : Shortcuts) : Prop where
  rooms : s.playlists.DistinctUpToCase
  playlists : ∀ room table, (room, table) ∈ s.playlists.entries → table.DistinctUpToCase
  volumeRooms : s.volumes.DistinctUpToCase

/-- There is an entry with this shortcut for a room and a playlist that are named like these up to
case. -/
def ListsPlaylist (s : Shortcuts) (room playlist name : String) : Prop :=
  ∃ key table, (key, table) ∈ s.playlists.entries ∧ sameUpToAsciiCase key room = true ∧
    ∃ key', (key', name) ∈ table.entries ∧ sameUpToAsciiCase key' playlist = true

/-- There is an entry with this shortcut for a room that is named like this one up to case, and for
just the digits of the volume. -/
def ListsVolume (s : Shortcuts) (room : String) (value : Nat) (name : String) : Prop :=
  ∃ key table, (key, table) ∈ s.volumes.entries ∧ sameUpToAsciiCase key room = true ∧
    (String.ofList (Nat.toDigits 10 value), name) ∈ table.entries

/-- The same shortcuts, with rooms and the entries of each room in another order. -/
structure Rearranges (s s' : Shortcuts) : Prop where
  playlists : s.playlists.Rearranges (fun t t' => t.entries.Perm t'.entries) s'.playlists
  volumes : s.volumes.Rearranges (fun t t' => t.entries.Perm t'.entries) s'.volumes

/-- A playlist is found by any spelling of its name and room. -/
theorem forPlaylist?_eq_some_iff (distinct : s.DistinctUpToCase) :
    s.forPlaylist? room playlist = some name ↔ s.ListsPlaylist room playlist name := by
  rw [forPlaylist?, Option.bind_eq_some_iff]
  constructor
  · rintro ⟨table, inRoom, found⟩
    obtain ⟨key, mem, same⟩ := Table.exists_entry_of_find? inRoom
    exact ⟨key, table, mem, same, Table.exists_entry_of_find? found⟩
  · rintro ⟨key, table, mem, same, entry⟩
    refine ⟨table, (Table.find?_eq_some_iff distinct.rooms).mpr ⟨key, mem, same⟩, ?_⟩
    exact (Table.find?_eq_some_iff (distinct.playlists key table mem)).mpr entry

/-- A volume is found by any spelling of its room. -/
theorem forVolume?_eq_some_iff (distinct : s.DistinctUpToCase) :
    s.forVolume? room value = some name ↔ s.ListsVolume room value name := by
  rw [forVolume?, Option.bind_eq_some_iff]
  constructor
  · rintro ⟨table, inRoom, found⟩
    obtain ⟨key, mem, same⟩ := Table.exists_entry_of_find? inRoom
    exact ⟨key, table, mem, same, Table.get?_eq_some_iff.mp found⟩
  · rintro ⟨key, table, mem, same, entry⟩
    refine ⟨table, (Table.find?_eq_some_iff distinct.volumeRooms).mpr ⟨key, mem, same⟩, ?_⟩
    exact Table.get?_eq_some_iff.mpr entry

namespace Rearranges

theorem distinctUpToCase (h : s.Rearranges s') (distinct : s.DistinctUpToCase) :
    s'.DistinctUpToCase where
  rooms := h.playlists.distinctUpToCase distinct.rooms
  playlists room table mem := by
    obtain ⟨table', mem', perm⟩ := h.playlists.exists_left mem
    exact (perm.map _).nodup_iff.mp (distinct.playlists room table' mem')
  volumeRooms := h.volumes.distinctUpToCase distinct.volumeRooms

/-- The order of entries does not matter for playlists. -/
theorem listsPlaylist_iff (h : s.Rearranges s') :
    s'.ListsPlaylist room playlist name ↔ s.ListsPlaylist room playlist name := by
  constructor
  · rintro ⟨key, table, mem, same, key', entry, same'⟩
    obtain ⟨table', mem', perm⟩ := h.playlists.exists_left mem
    exact ⟨key, table', mem', same, key', perm.mem_iff.mpr entry, same'⟩
  · rintro ⟨key, table, mem, same, key', entry, same'⟩
    obtain ⟨table', mem', perm⟩ := h.playlists.exists_right mem
    exact ⟨key, table', mem', same, key', perm.mem_iff.mp entry, same'⟩

/-- The order of entries does not matter for volumes. -/
theorem listsVolume_iff (h : s.Rearranges s') :
    s'.ListsVolume room value name ↔ s.ListsVolume room value name := by
  constructor
  · rintro ⟨key, table, mem, same, entry⟩
    obtain ⟨table', mem', perm⟩ := h.volumes.exists_left mem
    exact ⟨key, table', mem', same, perm.mem_iff.mpr entry⟩
  · rintro ⟨key, table, mem, same, entry⟩
    obtain ⟨table', mem', perm⟩ := h.volumes.exists_right mem
    exact ⟨key, table', mem', same, perm.mem_iff.mp entry⟩

end Rearranges

/-- If no names differ in case alone, a shortcut is found exactly if there is an entry for these
names up to case, whatever the order of the entries and the case of what is looked up; the digits
of a volume have to be the same. In all tables an entry for exactly these names is the one that is
found. -/
theorem found_by_spelling (s : Shortcuts) :
    (s.DistinctUpToCase →
      (∀ room playlist name,
        s.forPlaylist? room playlist = some name ↔ s.ListsPlaylist room playlist name) ∧
      (∀ room value name, s.forVolume? room value = some name ↔ s.ListsVolume room value name) ∧
      ∀ s' room room', s.Rearranges s' → sameUpToAsciiCase room room' = true →
        (∀ playlist playlist', sameUpToAsciiCase playlist playlist' = true →
          s'.forPlaylist? room' playlist' = s.forPlaylist? room playlist) ∧
        ∀ value, s'.forVolume? room' value = s.forVolume? room value) ∧
    (∀ room table, (room, table) ∈ s.playlists.entries → ∀ playlist name,
      (playlist, name) ∈ table.entries → s.forPlaylist? room playlist = some name) ∧
    ∀ room table, (room, table) ∈ s.volumes.entries → ∀ value name,
      (String.ofList (Nat.toDigits 10 value), name) ∈ table.entries →
        s.forVolume? room value = some name := by
  refine ⟨fun distinct => ⟨fun _ _ _ => forPlaylist?_eq_some_iff distinct,
    fun _ _ _ => forVolume?_eq_some_iff distinct, ?_⟩, ?_, ?_⟩
  · intro s' room room' rearranged same
    have distinct' := rearranged.distinctUpToCase distinct
    constructor
    · intro playlist playlist' same'
      apply Option.ext
      intro name
      rw [forPlaylist?_eq_some_iff distinct', forPlaylist?_eq_some_iff distinct,
        rearranged.listsPlaylist_iff]
      simp only [ListsPlaylist, same_congr same, same_congr same']
    · intro value
      apply Option.ext
      intro name
      rw [forVolume?_eq_some_iff distinct', forVolume?_eq_some_iff distinct,
        rearranged.listsVolume_iff]
      simp only [ListsVolume, same_congr same]
  · intro room table mem playlist name entry
    rw [forPlaylist?, Table.find?_of_mem mem]
    exact Table.find?_of_mem entry
  · intro room table mem value name entry
    rw [forVolume?, Table.find?_of_mem mem]
    exact Table.get?_eq_some_iff.mpr entry

def twoRooms : Shortcuts where
  playlists := .ofList [("Kitchen", .ofList [("Jazz", "Kitchen Jazz"), ("Rock", "Kitchen Rock")]),
    ("Den", .ofList [("Rock", "Den Rock")])]
  volumes := .ofList [("Den", .ofList [("30", "Den 30")])]

/-- The same shortcuts, with the rooms and the playlists of the kitchen the other way round. -/
def twoRoomsReversed : Shortcuts where
  playlists := .ofList [("Den", .ofList [("Rock", "Den Rock")]),
    ("Kitchen", .ofList [("Rock", "Kitchen Rock"), ("Jazz", "Kitchen Jazz")])]
  volumes := twoRooms.volumes

theorem found_by_spelling_reversed :
    twoRoomsReversed.forPlaylist? "KITCHEN" "JAZZ" = twoRooms.forPlaylist? "Kitchen" "Jazz" ∧
      twoRooms.forPlaylist? "Kitchen" "Jazz" = some "Kitchen Jazz" ∧
      twoRooms.forVolume? "Den" 30 = some "Den 30" := by
  have distinct : twoRooms.DistinctUpToCase := by
    refine ⟨by decide, ?_, by decide⟩
    have all : ∀ e ∈ twoRooms.playlists.entries, e.2.DistinctUpToCase := by decide
    exact fun room table mem => all (room, table) mem
  have rearranged : twoRooms.Rearranges twoRoomsReversed :=
    ⟨⟨twoRooms.playlists.entries.reverse, (List.reverse_perm _).symm,
      .cons ⟨rfl, .refl _⟩ (.cons ⟨rfl, .swap _ _ _⟩ .nil)⟩,
      ⟨_, .refl _, .cons ⟨rfl, .refl _⟩ .nil⟩⟩
  obtain ⟨unordered, exactly, exactVolume⟩ := found_by_spelling twoRooms
  have sameKitchen := (unordered distinct).2.2 twoRoomsReversed "Kitchen" "KITCHEN" rearranged
  exact ⟨(sameKitchen (by decide)).1 "Jazz" "JAZZ" (by decide),
    exactly "Kitchen" (.ofList [("Jazz", "Kitchen Jazz"), ("Rock", "Kitchen Rock")])
      (by decide) "Jazz" "Kitchen Jazz" (by decide),
    exactVolume "Den" (.ofList [("30", "Den 30")]) (by decide) 30 "Den 30" (by decide)⟩

end Shortcuts

end RoomAudio
