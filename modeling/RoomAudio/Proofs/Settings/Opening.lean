import RoomAudio.Proofs.Settings.Persistence
import RoomAudio.Proofs.Text.Utf8

/-!
# Opening any file

A settings file may hold anything. Whatever text it holds, a store is opened: settings that cannot
be read are passed over, and so are defaults that break a rule. Bytes that are no text are another
matter. They count as a failure to read the file, and no store is opened.

## Main definitions

* `Settings.StandsFor` — the settings that a text stands for.
* `Settings.standsFor_iff` — each text stands for settings, and for no others.
* `opens_iff_text` — which files can be opened, and what becomes of them.
-/

namespace RoomAudio

namespace Settings

/-- A settings file with these bytes is all that there is. -/
def fileOf (bytes : List UInt8) : Files := { entries := [(["config.json"], .file bytes)] }

theorem read_fileOf (bytes : List UInt8) : (fileOf bytes).read "/config.json" = .ok bytes := rfl

def fileHolding (text : String) : Files := fileOf (Text.Utf8.encode text.toList)

/-- The settings that a text stands for, whatever text it is. -/
inductive StandsFor (text : List Char) : Settings → Prop where
  /-- Settings can be read, and their defaults keep the rules. -/
  | whole {s : Settings} (read : decode text = .ok s) (kept : checkDefaults s.defaults = .ok ()) :
      StandsFor text s
  /-- Settings can be read, and their defaults break a rule. -/
  | withoutDefaults {s : Settings} {problem : Problem} (read : decode text = .ok s)
      (broken : checkDefaults s.defaults = .error problem) : StandsFor text { s with defaults := {} }
  /-- No settings can be read. -/
  | nothing {fault : Fault} (unread : decode text = .error fault) : StandsFor text {}

variable {text : List Char} {s : Settings}

/-- Every text stands for settings. -/
theorem standsFor_ofText (text : List Char) : StandsFor text (ofText text) := by
  unfold ofText
  split
  · rename_i s read
    unfold withoutInvalid
    split
    · rename_i kept
      exact .whole read kept
    · rename_i problem broken
      exact .withoutDefaults read broken
  · rename_i fault unread
    exact .nothing unread

/-- Each text stands for settings, and for no others. -/
theorem standsFor_iff : StandsFor text s ↔ s = ofText text := by
  constructor
  · intro h
    cases h with
    | whole read kept => simp only [ofText, read, withoutInvalid, kept]
    | withoutDefaults read broken => simp only [ofText, read, withoutInvalid, broken]
    | nothing unread => simp only [ofText, unread]
  · rintro rfl
    exact standsFor_ofText text

end Settings

namespace Store

variable {files : Files} {path : String} {bytes : List UInt8}

/-- A file that holds a text is opened as the settings that this text stands for. -/
theorem load_encode {text : List Char} (held : files.read path = .ok (Text.Utf8.encode text)) :
    load files path = .ok ⟨path, Settings.ofText text⟩ := by
  rw [load, Settings.load, held]
  simp only [Text.Utf8.decode_encode]
  rfl

/-- A file that holds no text cannot be loaded. -/
theorem load_of_not_text (held : files.read path = .ok bytes)
    (broken : ∀ text, bytes ≠ Text.Utf8.encode text) :
    load files path = .error (.file .notText) := by
  rw [load, Settings.load, held]
  cases read : Text.Utf8.decode bytes with
  | error fault =>
    simp only [read]
    rfl
  | ok text => exact absurd (Text.Utf8.decode_eq_ok_iff.mp read) (broken text)

end Store

/-- A settings file is opened exactly if its bytes are a text. Then whatever the text is, the store
has the settings that it stands for; otherwise the file counts as one that cannot be read. -/
theorem opens_iff_text {files : Files} {path : String} {bytes : List UInt8}
    (held : files.read path = .ok bytes) :
    ((∃ store, Store.load files path = .ok store) ↔ ∃ text, bytes = Text.Utf8.encode text) ∧
    (∀ text, bytes = Text.Utf8.encode text → ∃ settings, Settings.StandsFor text settings ∧
      Store.load files path = .ok ⟨path, settings⟩) ∧
    ((∀ text, bytes ≠ Text.Utf8.encode text) →
      Store.load files path = .error (.file .notText)) := by
  refine ⟨⟨?_, ?_⟩, ?_, Store.load_of_not_text held⟩
  · rintro ⟨store, opened⟩
    by_cases text : ∃ text, bytes = Text.Utf8.encode text
    · exact text
    · rw [Store.load_of_not_text held (not_exists.mp text)] at opened
      cases opened
  · rintro ⟨text, rfl⟩
    exact ⟨_, Store.load_encode held⟩
  · rintro text rfl
    exact ⟨_, Settings.standsFor_ofText text, Store.load_encode held⟩

/-- A volume that breaks the rules is passed over, and the application is read; bytes that no text
has are not opened. -/
theorem opens_iff_text_volume :
    Store.load (Settings.fileHolding
        "\x7b\"defaults\":\x7b\"volume\":101\x7d,\"airplay\":\x7b\"app\":\"TV\"\x7d\x7d")
        "/config.json" = .ok ⟨"/config.json", { application := "TV" }⟩ ∧
      Store.load (Settings.fileOf [0xC3]) "/config.json" = .error (.file .notText) := by
  constructor
  · obtain ⟨settings, stands, opened⟩ := (opens_iff_text (Settings.read_fileOf _)).2.1 (String.toList
      "\x7b\"defaults\":\x7b\"volume\":101\x7d,\"airplay\":\x7b\"app\":\"TV\"\x7d\x7d") rfl
    rw [Settings.standsFor_iff] at stands
    have expected : settings = { application := "TV" } := stands.trans (by decide +kernel)
    rw [← expected]
    exact opened
  · refine (opens_iff_text (Settings.read_fileOf _)).2.2 fun text same => ?_
    have read := Text.Utf8.decode_eq_ok_iff.mpr same
    cases read

/-- A byte that no text has: the file can be read, and no store is opened. -/
theorem no_store_from_broken_bytes :
    (Settings.fileOf [0xFF]).read "/config.json" = .ok [0xFF] ∧
      ∀ store, Store.load (Settings.fileOf [0xFF]) "/config.json" ≠ .ok store :=
  ⟨rfl, nofun⟩

end RoomAudio
