import RoomAudio.Proofs.Settings.History
import RoomAudio.Proofs.Text.Pieces

/-!
# Canonical values

A key is given a value by a text, and shown as a text. What is shown of a value that was given is
the canonical text of this value: it has no blank ends and it stands for the same value, so giving
it once more changes nothing. When nothing is shown, the key was cleared.

## Main definitions

* `Text.int64?_decimal` — an integer in decimal notation is read as this integer.
* `SettingKey.roomsOf_intercalate` — the rooms that a text lists, by its parts.
* `SettingKey.shown` — what is shown of a value.
* `SettingKey.reading_shown` — what is shown of a value stands for it.
* `set_is_canonical` — giving a key a value.
-/

namespace RoomAudio

namespace Text

/-- An integer in decimal notation is read as this integer. -/
theorem int64?_decimal {i : Int} (h : isInt64 i = true) : int64? (Data.decimal i) = some i := by
  have digits (n : Nat) : (Nat.toDigits 10 n).isEmpty = false ∧
      (Nat.toDigits 10 n).all Char.isDigit = true :=
    ⟨by simp, List.all_eq_true.mpr fun _ => Json.isDigit_of_mem_digits⟩
  cases i with
  | ofNat n =>
    rw [Data.decimal]
    unfold int64?
    split
    rename_i negative l signs
    have unsigned : (negative, l) = (false, Nat.toDigits 10 n) := by
      rw [← signs]
      split
      · exact absurd ‹_› (Json.digits_ne_cons rfl n _)
      · exact absurd ‹_› (Json.digits_ne_cons rfl n _)
      · rfl
    cases unsigned
    simpa [digits, Json.valueOfDigits_digits] using h
  | negSucc n =>
    have value : -((n + 1 : Nat) : Int) = Int.negSucc n := rfl
    simp only [Data.decimal, int64?, digits, Json.valueOfDigits_digits, if_true, value, h]
    rfl

theorem isInt64_of_int64? {l : List Char} {i : Int} (h : int64? l = some i) :
    isInt64 i = true := by
  unfold int64? at h
  split at h
  simp only [Option.ite_none_left_eq_some, Option.ite_none_right_eq_some, Option.some.injEq] at h
  obtain ⟨-, fits, rfl⟩ := h
  exact fits

/-- Decimal notation has no blank ends. -/
theorem trimChars_decimal (i : Int) : trimChars (Data.decimal i) = Data.decimal i := by
  have digits (n : Nat) : ∀ c ∈ Nat.toDigits 10 n, isBlank c = false :=
    fun c mem => isBlank_of_isDigit (Json.isDigit_of_mem_digits mem)
  have plain : ∀ c ∈ Data.decimal i, isBlank c = false := by
    cases i with
    | ofNat n => exact digits n
    | negSucc n => exact List.forall_mem_cons.mpr ⟨rfl, digits (n + 1)⟩
  rw [trimChars_eq_self_iff]
  exact ⟨fun c first => plain c (List.mem_of_mem_head? first),
    fun c last => plain c (List.mem_of_mem_getLast? last)⟩

end Text

namespace SettingKey

/-! ## Lists of rooms -/

/-- The parts between commas are the rooms that a text lists, but for the blank ones. -/
theorem roomsOf_intercalate {parts : List String} (free : ∀ part ∈ parts, ',' ∉ part.toList)
    (filled : parts ≠ []) :
    roomsOf (String.intercalate "," parts) =
      (parts.filter (!Text.blank ·)).map Text.trim := by
  have comma : "," = String.singleton ',' := rfl
  have blank (part : String) : (Text.trim part).isEmpty = Text.blank part := by
    rw [Bool.eq_iff_iff, String.isEmpty_iff, Text.trim_eq_empty_iff]
  rw [roomsOf, comma, Text.splitOn_intercalate free filled, List.map_map]
  change (parts.map Text.trim).filter _ = _
  rw [List.filter_map]
  simp only [Function.comp_def, blank]

/-- A text lists its parts between commas; those that are not blank name rooms. -/
theorem exists_parts (raw : String) : ∃ parts : List String, parts ≠ [] ∧
    String.intercalate "," parts = raw ∧ (∀ part ∈ parts, ',' ∉ part.toList) ∧
      roomsOf raw = (parts.filter (!Text.blank ·)).map Text.trim := by
  obtain ⟨parts, filled, joined, free⟩ := Text.exists_pieces ',' raw
  exact ⟨parts, filled, joined, free, joined ▸ roomsOf_intercalate free filled⟩

/-- The rooms that a text lists are trimmed and free of commas. -/
theorem trimmed_of_mem_roomsOf {raw room : String} (h : room ∈ roomsOf raw) :
    Text.Trimmed room ∧ ',' ∉ room.toList := by
  obtain ⟨parts, -, -, free, rooms⟩ := exists_parts raw
  rw [rooms] at h
  obtain ⟨part, listed, rfl⟩ := List.mem_map.mp h
  obtain ⟨mem, named⟩ := List.mem_filter.mp listed
  refine ⟨Text.trimmed_trim (by simpa using named), fun bad => free part mem ?_⟩
  rw [Text.trim, String.toList_ofList] at bad
  exact (Text.trimChars_sublist _).subset bad

/-- The rooms that a text lists are listed again by these rooms with commas between them. -/
theorem roomsOf_joined {raw : String} (filled : roomsOf raw ≠ []) :
    roomsOf (String.intercalate "," (roomsOf raw)) = roomsOf raw := by
  have named : ∀ room ∈ roomsOf raw, (!Text.blank room) = true := by
    intro room mem
    obtain ⟨⟨nonempty, trimmed⟩, -⟩ := trimmed_of_mem_roomsOf mem
    rw [Bool.not_eq_true', ← Bool.not_eq_true, ← Text.trim_eq_empty_iff, trimmed]
    exact nonempty
  have trimmed : ∀ room ∈ roomsOf raw, Text.trim room = id room :=
    fun room mem => (trimmed_of_mem_roomsOf mem).1.2
  rw [roomsOf_intercalate (fun room mem => (trimmed_of_mem_roomsOf mem).2) filled,
    List.filter_eq_self.mpr named, List.map_congr_left trimmed, List.map_id]

/-! ## From texts to values and back -/

def shown (k : SettingKey) (v : k.Value) : Option String := k.get (Defaults.assign {} k v)

/-- What is shown of a key depends on its value only. -/
theorem get_eq_shown (k : SettingKey) (d : Defaults) : k.get d = k.shown (d.value k) := by
  cases k <;> rfl

/-- What is shown of a value that was read has no blank ends and stands for this value. -/
theorem reading_shown {k : SettingKey} {name raw : String} {v : k.Value}
    (h : k.reading name raw = .ok v) : (k.shown v = none ∧ v = k.noValue) ∨
      ∃ text, k.shown v = some text ∧ Text.trim text = text ∧ k.reading name text = .ok v := by
  cases k with
  | backend =>
    cases h
    by_cases empty : Text.trim raw = ""
    · exact .inl ⟨by simp [shown, get, Defaults.assign, empty], empty⟩
    · refine .inr ⟨Text.trim raw, ?_, Text.trim_trim raw, ?_⟩
      · simp [shown, get, Defaults.assign, empty]
      · rw [reading, Text.trim_trim]
  | rooms =>
    rw [reading_rooms] at h
    cases h
    by_cases empty : roomsOf raw = []
    · exact .inl ⟨by simp [shown, get, Defaults.assign, empty], empty⟩
    · have trimmed : Text.Trimmed (String.intercalate "," (roomsOf raw)) :=
        Text.Trimmed.intercalate "," empty fun room mem => (trimmed_of_mem_roomsOf mem).1
      refine .inr ⟨String.intercalate "," (roomsOf raw), ?_, trimmed.2, ?_⟩
      · simp [shown, get, Defaults.assign, trimmed.1]
      · rw [reading_rooms, roomsOf_joined empty]
  | volume =>
    rw [reading] at h
    cases read : Text.int64? (Text.trim raw).toList with
    | none =>
      rw [read] at h
      cases h
    | some i =>
      rw [read] at h
      cases h
      have fits := Text.isInt64_of_int64? read
      have trimmed : Text.trim (String.ofList (Data.decimal i)) = String.ofList (Data.decimal i) := by
        rw [Text.trim, String.toList_ofList, Text.trimChars_decimal]
      refine .inr ⟨String.ofList (Data.decimal i), rfl, trimmed, ?_⟩
      rw [reading, trimmed, String.toList_ofList, Text.int64?_decimal fits]
  | shuffle =>
    rw [reading] at h
    split at h
    · cases h
      exact .inr ⟨"true", rfl, rfl, rfl⟩
    split at h
    · cases h
      exact .inr ⟨"false", rfl, rfl, rfl⟩
    · cases h

end SettingKey

/-! ## Giving a key a value -/

theorem Defaults.assign_assign {d : Defaults} {k : SettingKey} {v w : k.Value} :
    (d.assign k v).assign k w = d.assign k w := by
  cases k <;> rfl

namespace Store

variable {s t : Store} {files after : Files} {key raw : String}

/-- Defaults are taken over exactly if the file is written. -/
theorem commit_eq_ok_iff {d : Defaults} : s.commit files d = (.ok (), t, after) ↔
    t = s.withDefaults d ∧
      files.save t.path (Text.Utf8.encode t.settings.print.toList) = (.ok (), after) := by
  constructor
  · intro committed
    exact (commit_iff.mp ⟨committed, fun fault => by simp⟩).2
  · intro written
    exact (commit_iff.mpr ⟨rfl, written⟩).1

/-- A key is given a value if the text stands for a value that keeps the rules and the file can be
written. -/
theorem set_eq_ok_iff (valid : s.settings.defaults.Valid) :
    s.set files key raw = (.ok (), t, after) ↔ ∃ (k : SettingKey) (v : k.Value), k.IsNamed key ∧
      k.reading (Text.trim key) raw = .ok v ∧
      Defaults.checkValue [.field "defaults"] k v = .ok () ∧
      s.commit files (s.settings.defaults.assign k v) = (.ok (), t, after) := by
  have called : s.set files key raw = _ := call_eq valid (.set key raw)
  rw [called]
  cases asked : (Request.call (.set key raw)).asked with
  | error error =>
    constructor
    · rintro ⟨⟩
    · rintro ⟨k, v, named, read, kept, -⟩
      rw [Request.asked, SettingKey.ofName_eq_ok_iff.mpr named] at asked
      simp only [bind, Except.bind, SettingKey.given_eq_ok_iff.mpr ⟨read, kept⟩] at asked
      cases asked
  | ok effect =>
    rw [Request.asked, except_bind_ok_iff] at asked
    obtain ⟨k, named, asked⟩ := asked
    rw [except_bind_ok_iff] at asked
    obtain ⟨v, given, asked⟩ := asked
    cases asked
    rw [SettingKey.ofName_eq_ok_iff] at named
    obtain ⟨read, kept⟩ := SettingKey.given_eq_ok_iff.mp given
    constructor
    · intro committed
      exact ⟨k, v, named, read, kept, committed⟩
    · rintro ⟨k', v', named', read', -, committed⟩
      obtain rfl : k' = k := SettingKey.eq_of_names named' named
      cases read.symm.trans read'
      exact committed

/-- A key that is taken back has no value. -/
theorem unset_of_isNamed {k : SettingKey} (named : k.IsNamed key) :
    s.unset files key = s.commit files (s.settings.defaults.assign k k.noValue) := by
  rw [unset, SettingKey.ofName_eq_ok_iff.mpr named, ← Defaults.unset_eq_assign]

/-- A change that was written once can be written again. -/
theorem commit_again {d : Defaults} (committed : s.commit files d = (.ok (), t, after)) :
    t.commit after d = (.ok (), t, after) := by
  obtain ⟨rfl, written⟩ := commit_eq_ok_iff.mp committed
  refine commit_eq_ok_iff.mpr ⟨rfl, ?_⟩
  -- the same is written to the same place, and writing it twice is as good as writing it once
  obtain ⟨last, direct, again⟩ := Files.save_save
    (Text.Utf8.encode (s.withDefaults d).settings.print.toList) written
  rw [direct] at written
  cases written
  exact again

/-- A change that was written is there when the file is opened again, for every key that does not
hold a backend of blank characters. -/
theorem reopened_value {d : Defaults} (valid : d.Valid) {k : SettingKey}
    (regular : k = .backend → Text.blank d.backend = true → d.backend = "")
    (committed : s.commit files d = (.ok (), t, after)) :
    ∃ reopened, Store.load after t.path = .ok reopened ∧
      reopened.settings.defaults.value k = d.value k := by
  obtain ⟨rfl, written⟩ := commit_eq_ok_iff.mp committed
  have saved : (s.withDefaults d).Saved after := Files.read_save written
  refine ⟨_, saved.load_eq valid, ?_⟩
  rcases (s.withDefaults d).settings.defaults_reread with same | ⟨lost, cleared, -⟩
  · rw [same]
    rfl
  · rw [cleared]
    cases k with
    | backend => exact absurd (regular rfl lost.blank) lost.nonempty
    | rooms => exact lost.rooms.symm
    | volume => exact lost.volume.symm
    | shuffle => exact lost.shuffle.symm

end Store

/-- Whatever has become of an opened store: when a key is given a value, nothing is shown of it and
the key is cleared, or the text that is shown has no blank ends and giving it to the key once more
changes neither the settings nor the files. The file opened again shows the same. Rooms are the
parts of the text between commas, without the blank ones. -/
theorem set_is_canonical {s t : Store} {files after : Files} {key raw : String}
    (reachable : s.Reachable) (written : s.set files key raw = (.ok (), t, after)) :
    ((t.get key = .ok none ∧ s.unset files key = (.ok (), t, after)) ∨
      ∃ text, t.get key = .ok (some text) ∧ Text.trim text = text ∧
        t.set after key text = (.ok (), t, after)) ∧
    (∃ reopened, Store.load after t.path = .ok reopened ∧ reopened.get key = t.get key) ∧
    (SettingKey.rooms.IsNamed key → ∃ parts : List String, parts ≠ [] ∧
      String.intercalate "," parts = raw ∧ (∀ part ∈ parts, ',' ∉ part.toList) ∧
      t.settings.defaults.rooms = (parts.filter (!Text.blank ·)).map Text.trim) := by
  obtain ⟨k, v, named, read, kept, committed⟩ := (Store.set_eq_ok_iff reachable.valid).mp written
  have valid : (s.settings.defaults.assign k v).Valid := reachable.valid.assign kept
  have defaults : t.settings.defaults = s.settings.defaults.assign k v := by
    obtain ⟨moved, -⟩ := Store.commit_eq_ok_iff.mp committed
    rw [moved]
    rfl
  have value : t.settings.defaults.value k = v := by
    rw [defaults, Defaults.value_assign_self]
  have shown : t.get key = .ok (k.shown v) := by
    rw [Store.get_of_isNamed named, SettingKey.get_eq_shown, value]
  refine ⟨?_, ?_, ?_⟩
  · rcases SettingKey.reading_shown read with ⟨nothing, rfl⟩ | ⟨text, same, trimmed, again⟩
    · refine .inl ⟨by rw [shown, nothing], ?_⟩
      rw [Store.unset_of_isNamed named]
      exact committed
    · refine .inr ⟨text, by rw [shown, same], trimmed, ?_⟩
      refine (Store.set_eq_ok_iff (defaults ▸ valid)).mpr ⟨k, v, named, again, kept, ?_⟩
      rw [defaults, Defaults.assign_assign]
      exact Store.commit_again committed
  · have regular : k = .backend → Text.blank (s.settings.defaults.assign k v).backend = true →
        (s.settings.defaults.assign k v).backend = "" := by
      rintro rfl blank
      cases read
      exact (Text.trim_eq_empty_iff raw).mpr (Text.blank_trim raw ▸ blank)
    obtain ⟨reopened, opened, same⟩ := Store.reopened_value valid regular committed
    refine ⟨reopened, opened, ?_⟩
    rw [shown, Store.get_of_isNamed named, SettingKey.get_eq_shown, same,
      Defaults.value_assign_self]
  · intro rooms
    obtain rfl : k = .rooms := SettingKey.eq_of_names named rooms
    obtain ⟨parts, filled, joined, free, listed⟩ := SettingKey.exists_parts raw
    rw [SettingKey.reading_rooms] at read
    cases read
    exact ⟨parts, filled, joined, free, value.trans listed⟩

/-- Rooms are given with a blank part, and one of them twice. -/
theorem set_is_canonical_rooms :
    ∃ t after, Store.set ⟨"/config.json", {}⟩ {} "rooms" "Den, ,Den" = (.ok (), t, after) ∧
      t.get "rooms" = .ok (some "Den,Den") ∧
      t.set after "rooms" "Den,Den" = (.ok (), t, after) := by
  have reachable : Store.Reachable ⟨"/config.json", {}⟩ := ⟨{}, "/config.json", _, rfl, .refl⟩
  obtain ⟨t, after, written, shown⟩ : ∃ t after,
      Store.set ⟨"/config.json", {}⟩ {} "rooms" "Den, ,Den" = (.ok (), t, after) ∧
        t.get "rooms" = .ok (some "Den,Den") := ⟨_, _, rfl, rfl⟩
  refine ⟨t, after, written, shown, ?_⟩
  rcases (set_is_canonical reachable written).1 with ⟨nothing, -⟩ | ⟨text, same, -, again⟩
  · rw [nothing] at shown
    cases shown
  · rw [same] at shown
    cases shown
    exact again

end RoomAudio
