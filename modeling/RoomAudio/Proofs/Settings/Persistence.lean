import RoomAudio.Proofs.Files
import RoomAudio.Proofs.Settings.RoundTrip
import RoomAudio.Proofs.Text.Utf8
import RoomAudio.Routine.Resolution

/-!
# Settings persist

Whatever is done to a store, its defaults keep the rules, and after a change that could be written
the file holds the settings of the store. Opening the file again leads to the same settings.

## Main definitions

* `Store.Call`, `Store.calls` — operations on a store, one after the other.
* `Store.Saved` — the file holds the settings of the store.
* `Store.call_spec`, `Store.calls_spec` — what an operation, and what a sequence of them does.
* `settings_persist` — opening the settings again.
-/

namespace RoomAudio

/-! ## Defaults that keep the rules -/

namespace Defaults

/-- A key without a value breaks no rule. -/
theorem Valid.unset {d : Defaults} (h : d.Valid) (key : SettingKey) : (key.unset d).Valid := by
  cases key with
  | backend => exact ⟨.inl rfl, h.volume, h.rooms⟩
  | rooms => exact ⟨h.backend, h.volume, by simp [SettingKey.unset, RoomsNamed]⟩
  | volume => exact ⟨h.backend, by simp [SettingKey.unset], h.rooms⟩
  | shuffle => exact ⟨h.backend, h.volume, h.rooms⟩

theorem Valid.isInt64 {d : Defaults} (h : d.Valid) :
    ∀ v, d.volume = some v → Text.isInt64 v = true := by
  intro v given
  obtain ⟨nonneg, bound⟩ := h.volume v given
  have limit : Int.pow 2 63 = 9223372036854775808 := by decide
  unfold maxVolume at bound
  simp only [Text.isInt64, limit, Bool.and_eq_true, decide_eq_true_eq]
  omega

/-- Defaults without any value add nothing to those of a routine. -/
theorem resolve_of_isEmpty {d : Defaults} (h : d.isEmpty = true) (routine : Option Defaults) :
    Defaults.resolve routine {} = Defaults.resolve routine d := by
  obtain ⟨backend, rooms, volume, shuffle⟩ := d
  simp only [isEmpty, Bool.and_eq_true, List.isEmpty_iff, Option.isNone_iff_eq_none] at h
  obtain ⟨⟨⟨blank, rfl⟩, rfl⟩, rfl⟩ := h
  have blank' : Text.blank "" = true := rfl
  simp [Defaults.resolve, List.find?_cons, blank, blank']

end Defaults

/-! ## Opening settings -/

namespace Settings

theorem withoutInvalid_eq_self {s : Settings} (h : s.defaults.Valid) : s.withoutInvalid = s := by
  rw [withoutInvalid, checkDefaults, (Defaults.validate_ok_iff _ _).mpr h]

/-- Defaults that break a rule are left out as a whole. -/
theorem valid_withoutInvalid (s : Settings) : s.withoutInvalid.defaults.Valid := by
  unfold withoutInvalid
  split
  · rename_i kept
    exact (Defaults.validate_ok_iff _ _).mp kept
  · exact .empty

theorem valid_ofText (text : List Char) : (ofText text).defaults.Valid := by
  unfold ofText
  split
  · exact valid_withoutInvalid _
  · exact .empty

/-- Settings that were loaded keep the rules. -/
theorem valid_of_load {files : Files} {path : String} {s : Settings}
    (h : load files path = .ok s) : s.defaults.Valid := by
  unfold load at h
  split at h
  · split at h
    · cases h
      exact valid_ofText _
    · cases h
  · cases h
    exact .empty
  · cases h

theorem valid_reread {s : Settings} (h : s.defaults.Valid) : s.reread.defaults.Valid := by
  unfold reread
  dsimp only
  split
  · exact .empty
  · exact h

/-- A file that holds the text of settings is opened as these settings. -/
theorem load_print {files : Files} {path : String} {s : Settings} (valid : s.defaults.Valid)
    (h : files.read path = .ok (Text.Utf8.encode s.print.toList)) :
    load files path = .ok s.reread := by
  have text : ofText s.print.toList = s.reread := by
    rw [ofText, decode_print valid.isInt64]
    exact withoutInvalid_eq_self (valid_reread valid)
  simp only [load, h, Text.Utf8.decode_encode, text]

end Settings

/-! ## Operations -/

namespace Store

inductive Call where
  | set (key value : String)
  | unset (key : String)
  | save

def call (s : Store) (files : Files) : Call → Except Settings.Error Unit × Store × Files
  | .set key value => s.set files key value
  | .unset key => s.unset files key
  | .save =>
    let (result, files) := s.save files
    (result, s, files)

/-- Carries out operations one after the other, whether or not they succeed. -/
def calls (s : Store) (files : Files) :
    List Call → List (Except Settings.Error Unit) × Store × Files
  | [] => ([], s, files)
  | c :: rest =>
    let (result, s, files) := s.call files c
    let (results, s, files) := s.calls files rest
    (result :: results, s, files)

def Saved (s : Store) (files : Files) : Prop :=
  files.read s.path = .ok (Text.Utf8.encode s.settings.print.toList)

/-- A file that holds the settings of a store is opened as these settings. -/
theorem Saved.load_eq {s : Store} {files : Files} (saved : s.Saved files)
    (valid : s.settings.defaults.Valid) :
    load files s.path = .ok ⟨s.path, s.settings.reread⟩ := by
  rw [load, Settings.load_print valid saved]
  rfl

/-- The file could be written, if it came to that. -/
def Unhindered (result : Except Settings.Error Unit) : Prop :=
  ∀ fault, result ≠ .error (.file fault)

/-- What was saved is in the file. -/
theorem save_spec {s : Store} {files after : Files} {result : Except Settings.Error Unit}
    (h : s.save files = (result, after)) (unhindered : Unhindered result) :
    result = .ok () ∧ s.Saved after := by
  unfold save at h
  cases saved : files.save s.path (Text.Utf8.encode s.settings.print.toList) with
  | mk outcome left =>
    rw [saved] at h
    cases h
    cases outcome with
    | ok u => exact ⟨rfl, Files.read_save saved⟩
    | error fault => exact absurd rfl (unhindered fault)

/-- Defaults that were taken over are in the file. -/
theorem commit_spec {s t : Store} {files after : Files} {result : Except Settings.Error Unit}
    {defaults : Defaults} (h : s.commit files defaults = (result, t, after))
    (unhindered : Unhindered result) :
    result = .ok () ∧ t = s.withDefaults defaults ∧ t.Saved after := by
  unfold commit at h
  dsimp only at h
  cases saved : (s.withDefaults defaults).save files with
  | mk outcome left =>
    rw [saved] at h
    cases h
    obtain ⟨ok, holds⟩ := save_spec saved unhindered
    exact ⟨ok, rfl, holds⟩

/-- Only values that keep the rules are given. -/
theorem valid_of_changed {s : Store} {key value : String} {defaults : Defaults}
    (h : s.changed key value = .ok defaults) : defaults.Valid := by
  rw [changed, except_bind_ok_iff] at h
  obtain ⟨name, -, h⟩ := h
  rw [except_bind_ok_iff] at h
  obtain ⟨defaults', -, h⟩ := h
  rw [except_bind_ok_iff] at h
  obtain ⟨u, checked, h⟩ := h
  cases h
  cases kept : Settings.checkDefaults defaults with
  | ok u => exact (Defaults.validate_ok_iff _ _).mp kept
  | error problem =>
    rw [kept] at checked
    cases checked

/-- An operation keeps the place of the file and the rules. Either it has written the settings, or
it has done nothing at all. -/
theorem call_spec {s t : Store} {files after : Files} {c : Call}
    {result : Except Settings.Error Unit} (h : s.call files c = (result, t, after))
    (valid : s.settings.defaults.Valid) (unhindered : Unhindered result) :
    t.path = s.path ∧ t.settings.defaults.Valid ∧
      (t.Saved after ∨ result ≠ .ok () ∧ t = s ∧ after = files) := by
  cases c with
  | set key value =>
    unfold call set at h
    dsimp only at h
    split at h
    · cases h
      exact ⟨rfl, valid, .inr ⟨by simp, rfl, rfl⟩⟩
    · rename_i defaults changed
      obtain ⟨-, rfl, saved⟩ := commit_spec h unhindered
      exact ⟨rfl, valid_of_changed changed, .inl saved⟩
  | unset key =>
    unfold call unset at h
    dsimp only at h
    split at h
    · cases h
      exact ⟨rfl, valid, .inr ⟨by simp, rfl, rfl⟩⟩
    · rename_i key _
      obtain ⟨-, rfl, saved⟩ := commit_spec h unhindered
      exact ⟨rfl, valid.unset key, .inl saved⟩
  | save =>
    unfold call at h
    cases saved : s.save files with
    | mk outcome left =>
      rw [saved] at h
      cases h
      exact ⟨rfl, valid, .inl (save_spec saved unhindered).2⟩

/-- Calls are carried out one after the other. -/
theorem calls_cons {s t : Store} {files after : Files} {c : Call} {rest : List Call}
    {results : List (Except Settings.Error Unit)}
    (h : s.calls files (c :: rest) = (results, t, after)) :
    ∃ result others middle between, results = result :: others ∧
      s.call files c = (result, middle, between) ∧
      middle.calls between rest = (others, t, after) := by
  rw [calls] at h
  cases first : s.call files c with
  | mk result next =>
    obtain ⟨middle, between⟩ := next
    cases later : middle.calls between rest with
    | mk others last =>
      rw [first] at h
      dsimp only at h
      rw [later] at h
      cases h
      exact ⟨result, others, middle, between, rfl, rfl, later⟩

/-- After operations of which one has succeeded the file holds the settings. -/
theorem calls_spec {s t : Store} {files after : Files} {calls : List Call}
    {results : List (Except Settings.Error Unit)}
    (h : s.calls files calls = (results, t, after)) (valid : s.settings.defaults.Valid)
    (unhindered : ∀ result ∈ results, Unhindered result) :
    t.path = s.path ∧ t.settings.defaults.Valid ∧
      (.ok () ∈ results ∨ s.Saved files → t.Saved after) := by
  induction calls generalizing s files results with
  | nil =>
    cases h
    exact ⟨rfl, valid, by simp⟩
  | cons c rest ih =>
    obtain ⟨result, others, s', files', rfl, first, later⟩ := calls_cons h
    obtain ⟨path, valid', wrote⟩ := call_spec first valid (unhindered result (by simp))
    obtain ⟨path', valid'', kept⟩ := ih later valid' fun r mem => unhindered r (by simp [mem])
    refine ⟨path'.trans path, valid'', fun saved => kept ?_⟩
    -- an operation that failed has left both the store and the file as they were
    rcases wrote with now | ⟨failed, rfl, rfl⟩
    · exact .inr now
    · simpa [failed.symm] using saved

end Store

/-- A backend of blank characters is all that the defaults carry. -/
structure Defaults.OnlyBlankBackend (d : Defaults) : Prop where
  blank : Text.blank d.backend = true
  nonempty : d.backend ≠ ""
  rooms : d.rooms = []
  volume : d.volume = none
  shuffle : d.shuffle = none

/-- Reading settings back changes nothing but a blank backend, and no routine depends on that. -/
theorem Settings.defaults_reread (s : Settings) : s.reread.defaults = s.defaults ∨
    s.defaults.OnlyBlankBackend ∧ s.reread.defaults = {} ∧
      ∀ routine, Defaults.resolve routine s.reread.defaults =
        Defaults.resolve routine s.defaults := by
  cases empty : s.defaults.isEmpty with
  | false =>
    refine .inl ?_
    simp [reread, empty]
  | true =>
    have nothing : s.reread.defaults = {} := by simp [reread, empty]
    have fields := empty
    simp only [Defaults.isEmpty, Bool.and_eq_true, List.isEmpty_iff,
      Option.isNone_iff_eq_none] at fields
    obtain ⟨⟨⟨blank, rooms⟩, volume⟩, shuffle⟩ := fields
    rw [nothing]
    by_cases plain : s.defaults.backend = ""
    · refine .inl ?_
      rw [← plain, ← rooms, ← volume, ← shuffle]
    · exact .inr ⟨⟨blank, plain, rooms, volume, shuffle⟩, rfl, Defaults.resolve_of_isEmpty empty⟩

/-- Whatever is done to an opened store, as long as the file can be written: once an operation has
succeeded, the file holds the settings of the store, and opening it again leads to the same
settings. Only a backend of blank characters, when nothing else is set, is lost, and no routine
depends on it. -/
theorem settings_persist {files after : Files} {path : String} {store final : Store}
    {calls : List Store.Call} {results : List (Except Settings.Error Unit)}
    (opened : Store.load files path = .ok store)
    (ran : store.calls files calls = (results, final, after))
    (unhindered : ∀ result ∈ results, ∀ fault, result ≠ .error (.file fault))
    (wrote : .ok () ∈ results) :
    after.read path = .ok (Text.Utf8.encode (Json.pretty final.settings.toData).toList) ∧
    ∃ reopened, Store.load after path = .ok reopened ∧ reopened.path = path ∧
      reopened.settings.shortcuts = final.settings.shortcuts ∧
      reopened.settings.application = final.settings.application ∧
      (reopened.settings.defaults = final.settings.defaults ∨
        final.settings.defaults.OnlyBlankBackend ∧ reopened.settings.defaults = {} ∧
          ∀ routine, Defaults.resolve routine reopened.settings.defaults =
            Defaults.resolve routine final.settings.defaults) := by
  have start : store.path = path ∧ store.settings.defaults.Valid := by
    unfold Store.load at opened
    cases loaded : Settings.load files path with
    | error error =>
      rw [loaded] at opened
      cases opened
    | ok settings =>
      rw [loaded] at opened
      cases opened
      exact ⟨rfl, Settings.valid_of_load loaded⟩
  obtain ⟨same, valid, saved⟩ := Store.calls_spec ran start.2 unhindered
  have holds : after.read path = .ok (Text.Utf8.encode final.settings.print.toList) := by
    have written := saved (.inl wrote)
    rw [Store.Saved, same, start.1] at written
    exact written
  refine ⟨holds, ⟨path, final.settings.reread⟩, ?_, rfl, rfl, rfl,
    final.settings.defaults_reread⟩
  rw [Store.load, Settings.load_print valid holds]
  rfl

/-- A value is refused and another one is written, to a file that was not there before. -/
theorem settings_persist_new_file :
    ∃ final after reopened,
      Store.calls ⟨"/config.json", {}⟩ {} [.set "shuffle" "maybe", .set "rooms" "Den, Küche"] =
        ([.error (.notBool "shuffle"), .ok ()], final, after) ∧
      Store.load after "/config.json" = .ok reopened ∧
      reopened.settings.defaults.rooms = ["Den", "Küche"] := by
  have opened : Store.load {} "/config.json" = .ok ⟨"/config.json", {}⟩ := rfl
  obtain ⟨final, after, ran, rooms⟩ : ∃ final after,
      Store.calls ⟨"/config.json", {}⟩ {} [.set "shuffle" "maybe", .set "rooms" "Den, Küche"] =
        ([.error (.notBool "shuffle"), .ok ()], final, after) ∧
      final.settings.defaults.rooms = ["Den", "Küche"] := ⟨_, _, rfl, rfl⟩
  obtain ⟨-, reopened, again, -, -, -, same | ⟨blank, -⟩⟩ :=
    settings_persist opened ran (by simp) (by simp)
  · exact ⟨final, after, reopened, ran, again, by rw [same, rooms]⟩
  · rw [blank.rooms] at rooms
    cases rooms

end RoomAudio
