import RoomAudio.Proofs.Text.Case
import RoomAudio.Shortcuts

/-!
# Looking up shortcuts

Whatever the tables answer is a value that they hold.

## Main definitions

* `Shortcuts.Holds` — some table holds a value.
* `Shortcuts.holds_of_forPlaylist?`, `Shortcuts.holds_of_forVolume?` — so do the tables that answer.
-/

namespace RoomAudio

namespace Table

variable {α : Type} {t : Table α} {name : String} {a : α}

theorem mem_of_get? (h : t.get? name = some a) : (name, a) ∈ t.entries := by
  obtain ⟨before, after, split, -⟩ := List.lookup_eq_some_iff.mp h
  rw [split]
  simp

/-- What is found stands under a name that is the same up to case. -/
theorem exists_entry_of_find? (h : t.find? name = some a) :
    ∃ key, (key, a) ∈ t.entries ∧ Text.sameUpToAsciiCase key name = true := by
  unfold find? at h
  split at h
  · rename_i b exact
    cases h
    exact ⟨name, mem_of_get? exact, Text.same_refl name⟩
  · obtain ⟨⟨key, b⟩, found, rfl⟩ := Option.map_eq_some_iff.mp h
    exact ⟨key, List.mem_of_find?_eq_some found, by simpa using List.find?_some found⟩

end Table

namespace Shortcuts

def Holds (shortcuts : Shortcuts) (name : String) : Prop :=
  ∃ room table key,
    ((room, table) ∈ shortcuts.playlists.entries ∨ (room, table) ∈ shortcuts.volumes.entries) ∧
      (key, name) ∈ table.entries

variable {shortcuts : Shortcuts} {room name : String}

/-- A shortcut that is found is one of the table. -/
theorem holds_of_forPlaylist? {playlist : String}
    (h : shortcuts.forPlaylist? room playlist = some name) : shortcuts.Holds name := by
  obtain ⟨table, inRoom, found⟩ := Option.bind_eq_some_iff.mp h
  obtain ⟨room', mem, -⟩ := Table.exists_entry_of_find? inRoom
  obtain ⟨key, held, -⟩ := Table.exists_entry_of_find? found
  exact ⟨room', table, key, .inl mem, held⟩

theorem holds_of_forVolume? {value : Nat} (h : shortcuts.forVolume? room value = some name) :
    shortcuts.Holds name := by
  obtain ⟨table, inRoom, found⟩ := Option.bind_eq_some_iff.mp h
  obtain ⟨room', mem, -⟩ := Table.exists_entry_of_find? inRoom
  exact ⟨room', table, _, .inr mem, Table.mem_of_get? found⟩

end Shortcuts

end RoomAudio
