import RoomAudio.Proofs.Json.Records
import RoomAudio.Proofs.Routine.Record
import RoomAudio.Proofs.Routine.Validity
import RoomAudio.Settings.Store

/-!
# Reading back settings

The text that is written for settings is read as these settings. Fields are left out when there is
nothing to say about them, and reading puts the missing value back. The one exception are defaults
of which no field carries a value although the backend is not the empty text: they are left out as a
whole and read as the empty defaults.

## Main definitions

* `Settings.reread` — what is read of settings that were written.
* `Settings.decode_print` — reading the text of settings.
-/

namespace RoomAudio

open Json

/-! ## Shortcuts -/

namespace Shortcuts

/-- Tables are read back. -/
theorem readTables_toData (t : Table (Table String)) :
    readTables Json.format (Tree.ofData (t.toData (Table.toData .text))) = .ok t :=
  Table.read_toData (fun t => Table.read_toData readsBack.text t) t

/-- The draft that is left when all written fields have been read. -/
def draft (s : Shortcuts) : Draft where
  playlists := if s.playlists.isEmpty then none else some s.playlists
  volumes := if s.volumes.isEmpty then none else some s.volumes

theorem getD_unless_empty (t : Table (Table String)) :
    (if t.isEmpty then none else some t).getD .empty = t := by
  by_cases empty : t.isEmpty = true
  · rw [if_pos empty]
    exact Table.eq_of_entries (List.isEmpty_iff.mp empty).symm
  · rw [if_neg empty]
    rfl

theorem read_toData (s : Shortcuts) :
    Shortcuts.read Json.format (Tree.ofData s.toData) = .ok s := by
  have fields : Json.format.fields fieldNames (readField Json.format) {} (Tree.ofData s.toData) =
      .ok s.draft := by
    rw [toData, readsBack.fields, tableField, tableField]
    refine foldlM_append_pure (foldlM_unless (fun playlists => Draft.mk playlists none) ?_)
      (foldlM_unless (fun volumes => { s.draft with volumes }) ?_)
    · simp only [readField, Format.once, readTables_toData]
      rfl
    · simp only [readField, Format.once, readTables_toData]
      rfl
  rw [Shortcuts.read, fields]
  change Except.ok (Shortcuts.mk (s.draft.playlists.getD .empty) (s.draft.volumes.getD .empty)) = _
  rw [draft, getD_unless_empty, getD_unless_empty]

end Shortcuts

/-! ## Settings -/

namespace Settings

theorem readApplication_toData (application : String) :
    readApplication Json.format (Tree.ofData (.record [("app", .text application)])) =
      .ok application := by
  rw [readApplication, readsBack.fields]
  rfl

def reread (s : Settings) : Settings :=
  { s with defaults := if s.defaults.isEmpty then {} else s.defaults }

theorem read_toData {s : Settings}
    (small : ∀ v, s.defaults.volume = some v → Text.isInt64 v = true) :
    Settings.read Json.format (Tree.ofData s.toData) = .ok s.reread := by
  have fields : Json.format.fields fieldNames (readField Json.format) {} (Tree.ofData s.toData) =
      .ok ⟨if s.defaults.isEmpty then none else some s.defaults, some s.shortcuts,
        some s.application⟩ := by
    rw [toData, readsBack.fields]
    refine foldlM_append_pure
      (foldlM_unless (b := s.defaults) (fun defaults => Draft.mk defaults none none) ?_) ?_
    · simp only [readField, Format.once, Defaults.read_toData readsBack small]
      rfl
    · simp only [List.foldlM_cons, List.foldlM_nil, readField, Format.once, Shortcuts.read_toData,
        readApplication_toData]
      rfl
  rw [Settings.read, fields]
  refine congrArg Except.ok ?_
  simp only [Draft.toSettings, reread]
  split <;> rfl

/-- The text of settings is read as these settings. -/
theorem decode_print {s : Settings}
    (small : ∀ v, s.defaults.volume = some v → Text.isInt64 v = true) :
    decode s.print.toList = .ok s.reread := by
  rw [decode, print, decode_pretty, read_toData small]

end Settings

end RoomAudio
