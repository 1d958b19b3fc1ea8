import RoomAudio.Proofs.Settings.Opening
import RoomAudio.Proofs.Settings.Requests
import RoomAudio.Proofs.Text.Blank

/-!
# What can become of a store

An opened store goes through any number of operations. Each of them may be refused or fail to write
the file, and the files may be different ones every time. The defaults keep the rules all along, so
a key that is shown as not set has no value when a routine is resolved. The converse has one
exception: a backend of blank characters that was in the file when it was opened is shown as it is,
although it stands for no backend.

An operation that is refused leaves no trace. One that cannot write the settings has changed the
store all the same.

## Main definitions

* `Store.Leads` — what operations can make of a store.
* `Store.Reachable` — a store that was opened and then went through operations.
* `Store.Leads.backend_eq` — no operation leaves a backend of blank characters.
* `ResolvedDefaults.Lacks` — there is no value for a key when routines are resolved.
* `Store.callBy` — operations that write the settings somewhere, or fail to.
* `shown_unless_lacking` — what is shown as not set.
* `store_after_failed_change` — what is left of a change that fails.
-/

namespace RoomAudio

namespace Store

variable {s t : Store} {files after : Files}

/-- What operations can make of a store, whether or not they succeed. Nothing is said about the
files that they find. -/
inductive Leads (s : Store) : Store → Prop where
  | refl : Leads s s
  | call {t u : Store} {files after : Files} {c : Call} {result : Except Settings.Error Unit} :
      Leads s t → t.call files c = (result, u, after) → Leads s u

/-- A store that was opened, or that has come out of operations on an opened one. -/
def Reachable (t : Store) : Prop :=
  ∃ (files : Files) (path : String) (s : Store), Store.load files path = .ok s ∧ s.Leads t

theorem Leads.trans {u : Store} (h : s.Leads t) (h' : t.Leads u) : s.Leads u := by
  induction h' with
  | refl => exact h
  | call _ called ih => exact ih.call called

/-- Calls lead to the store they leave. -/
theorem leads_of_calls {calls : List Call} {results : List (Except Settings.Error Unit)}
    (h : s.calls files calls = (results, t, after)) : s.Leads t := by
  induction calls generalizing s files results with
  | nil =>
    cases h
    exact .refl
  | cons c rest ih =>
    obtain ⟨result, others, middle, between, -, first, later⟩ := calls_cons h
    exact (Leads.refl.call first).trans (ih later)

/-- What an operation does to the store does not depend on the files. -/
theorem call_store {c : Call} {result : Except Settings.Error Unit}
    (valid : s.settings.defaults.Valid) (h : s.call files c = (result, t, after)) :
    t = s.withDefaults ((Request.call c).effect.apply s.settings.defaults) := by
  rw [call_eq valid] at h
  unfold Request.effect
  cases asked : (Request.call c).asked with
  | error error =>
    rw [asked] at h
    cases h
    rfl
  | ok effect =>
    rw [asked] at h
    exact (congrArg (·.2.1) h).symm

theorem get_of_isNamed {k : SettingKey} {key : String} (named : k.IsNamed key) (s : Store) :
    s.get key = .ok (k.get s.settings.defaults) := by
  rw [get, SettingKey.ofName_eq_ok_iff.mpr named]
  rfl

/-- Operations keep the rules, and they change nothing but the defaults. -/
theorem Leads.keeps (h : s.Leads t) (valid : s.settings.defaults.Valid) :
    t.settings.defaults.Valid ∧ t = s.withDefaults t.settings.defaults := by
  induction h with
  | refl => exact ⟨valid, rfl⟩
  | call _ called ih =>
    obtain ⟨valid', only⟩ := ih
    rw [call_store valid' called]
    exact ⟨valid_apply valid' _, by rw [only]; rfl⟩

/-- The defaults of a store keep the rules at any time. -/
theorem Reachable.valid (h : t.Reachable) : t.settings.defaults.Valid := by
  obtain ⟨_, _, s, opened, later⟩ := h
  exact (later.keeps (valid_of_load opened)).1

/-! ## Backends of blank characters -/

/-- A text is trimmed before it becomes the backend. -/
theorem backend_eq_empty_of_gives {r : Request} {name : String}
    (h : r.gives .backend = some name) (blank : Text.blank name = true) : name = "" := by
  cases r with
  | get key => cases h
  | call c =>
    cases c with
    | save => cases h
    | unset key =>
      rw [Request.gives] at h
      split at h
      · cases h
        rfl
      · cases h
    | set key raw =>
      rw [Request.gives] at h
      split at h
      · rw [toOption_eq_some_iff, SettingKey.given, except_bind_ok_iff] at h
        obtain ⟨e, set, h⟩ := h
        rw [except_bind_ok_iff] at h
        obtain ⟨_, -, h⟩ := h
        cases set
        cases h
        exact (Text.trim_eq_empty_iff raw).mpr (Text.blank_trim raw ▸ blank)
      · cases h

/-- A backend of blank characters was there from the start. -/
theorem Leads.backend_eq (h : s.Leads t) (valid : s.settings.defaults.Valid)
    (blank : Text.blank t.settings.defaults.backend = true)
    (nonempty : t.settings.defaults.backend ≠ "") :
    t.settings.defaults.backend = s.settings.defaults.backend := by
  induction h with
  | refl => rfl
  | @call t u _ _ c _ earlier called ih =>
    have moved : u.settings.defaults.backend =
        (if ((Request.call c).reply t.settings.defaults).isOk then
          (Request.call c).gives .backend else none).getD t.settings.defaults.backend := by
      rw [call_store (earlier.keeps valid).1 called]
      exact value_apply _ _ .backend
    cases given : (Request.call c).gives .backend with
    | none =>
      rw [given, ite_self, Option.getD_none] at moved
      rw [moved] at blank nonempty ⊢
      exact ih blank nonempty
    | some name =>
      rw [given, isOk_of_gives given, if_pos rfl, Option.getD_some] at moved
      rw [moved] at blank nonempty
      exact absurd (backend_eq_empty_of_gives given blank) nonempty

/-! ## Operations that fail -/

section Failure

variable {ω : Type} {write : Store → ω → Except FileFault Unit × ω} {world left : ω}

def commitBy (write : Store → ω → Except FileFault Unit × ω) (t : Store) (world : ω) :
    Except Settings.Error Unit × Store × ω :=
  let (result, world) := write t world
  (result.mapError .file, t, world)

/-- Carries out an operation where settings are written by `write`. Nothing is said about what
surrounds the store, and writing may fail at any time and for any reason. -/
def callBy (write : Store → ω → Except FileFault Unit × ω) (s : Store) (world : ω) :
    Call → Except Settings.Error Unit × Store × ω
  | .set key value =>
    match s.changed key value with
    | .error error => (.error error, s, world)
    | .ok defaults => commitBy write (s.withDefaults defaults) world
  | .unset key =>
    match SettingKey.ofName key with
    | .error error => (.error error, s, world)
    | .ok key => commitBy write (s.withDefaults (key.unset s.settings.defaults)) world
  | .save => commitBy write s world

def writeFile (s : Store) (files : Files) : Except FileFault Unit × Files :=
  files.save s.path (Text.Utf8.encode s.settings.print.toList)

/-- The operations write the file of the store. -/
theorem call_eq_callBy (s : Store) (files : Files) (c : Call) :
    s.call files c = s.callBy writeFile files c := by
  cases c with
  | save => rfl
  | set key value =>
    rw [call, set, callBy]
    cases s.changed key value <;> rfl
  | unset key =>
    rw [call, unset, callBy]
    cases SettingKey.ofName key <;> rfl

/-- An operation is refused, or the settings it asks for are written. -/
theorem callBy_eq (valid : s.settings.defaults.Valid) (c : Call) :
    s.callBy write world c = match (Request.call c).asked with
      | .error error => (.error error, s, world)
      | .ok effect =>
        commitBy write (s.withDefaults (effect.apply s.settings.defaults)) world := by
  cases c with
  | save => rfl
  | unset key =>
    rw [callBy, Request.asked]
    cases SettingKey.ofName key with
    | error error => rfl
    | ok k =>
      exact congrArg (fun d => commitBy write (s.withDefaults d) world) Defaults.unset_eq_assign
  | set key raw =>
    rw [callBy, changed_eq valid, Request.asked]
    cases SettingKey.ofName key with
    | error error => rfl
    | ok k =>
      simp only [bind, Except.bind]
      cases k.given (Text.trim key) raw <;> rfl

/-- What is asked for by a change is a value of one key. -/
theorem exists_gives_of_asked {c : Call} {effect : Effect} (change : c ≠ .save)
    (h : (Request.call c).asked = .ok effect) :
    ∃ k v, effect = .assign k v ∧ (Request.call c).gives k = some v := by
  obtain ⟨k, v, rfl⟩ : ∃ k v, effect = .assign k v := by
    cases c with
    | save => exact absurd rfl change
    | set key raw =>
      rw [Request.asked, except_bind_ok_iff] at h
      obtain ⟨k, -, h⟩ := h
      rw [except_bind_ok_iff] at h
      obtain ⟨v, -, h⟩ := h
      cases h
      exact ⟨k, v, rfl⟩
    | unset key =>
      rw [Request.asked, except_bind_ok_iff] at h
      obtain ⟨k, -, h⟩ := h
      cases h
      exact ⟨k, k.noValue, rfl⟩
  exact ⟨k, v, rfl, asked_eq_assign_iff.mp h⟩

/-- Defaults that cannot be written are not taken over. -/
theorem commitBy_eq_error_iff {error : Settings.Error} {u : Store} :
    commitBy write u world = (.error error, t, left) ↔
      t = u ∧ ∃ fault, error = .file fault ∧ write u world = (.error fault, left) := by
  unfold commitBy
  cases write u world with
  | mk result left' =>
    cases result with
    | ok u =>
      constructor
      · rintro ⟨⟩
      · rintro ⟨-, fault, -, ⟨⟩⟩
    | error fault =>
      constructor
      · rintro ⟨⟩
        exact ⟨rfl, fault, rfl, rfl⟩
      · rintro ⟨rfl, fault, rfl, ⟨⟩⟩
        rfl

end Failure

end Store

/-! ## What is shown and what counts -/

/-- There is no value for a key when routines are resolved. -/
def ResolvedDefaults.Lacks (r : ResolvedDefaults) : SettingKey → Prop
  | .backend => r.backend = none
  | .rooms => r.rooms = []
  | .volume => r.volume = none
  | .shuffle => r.shuffle = none

/-- A backend that is shown although it stands for none. -/
def Defaults.ShowsBlank (d : Defaults) : Prop := Text.blank d.backend = true ∧ d.backend ≠ ""

namespace Defaults

variable {d : Defaults}

theorem byte?_isSome {v : Int} (h : IsVolume v) : (byte? v).isSome = true := by
  obtain ⟨nonneg, bound⟩ := h
  have small : v < 256 := by
    unfold maxVolume at bound
    omega
  rw [byte?, if_pos ⟨nonneg, small⟩, Option.isSome_some]

/-- A backend that is blank is none when routines are resolved. -/
theorem lacks_backend_iff (valid : d.Valid) :
    (Defaults.resolve none d).Lacks .backend ↔ Text.blank d.backend = true := by
  have blank' : Text.blank "" = true := rfl
  cases blank : Text.blank d.backend with
  | true => simp [ResolvedDefaults.Lacks, resolve, blank, blank']
  | false =>
    have known : (Backend.ofName? d.backend).isSome = true := by
      simpa [blank] using valid.backend
    have ne : Backend.ofName? d.backend ≠ none := by simpa [Option.isSome_iff_ne_none] using known
    simp [ResolvedDefaults.Lacks, resolve, blank, blank', ne]

/-- The names of rooms that are stored are not blank, so there is something to show of them. -/
theorem get_rooms_eq_none_iff (valid : d.Valid) :
    SettingKey.rooms.get d = none ↔ d.rooms = [] := by
  cases rooms : d.rooms with
  | nil => simp [SettingKey.get, rooms]
  | cons room others =>
    have named : room ≠ "" := by
      rintro rfl
      cases valid.rooms "" (by simp [rooms])
    have shown : String.intercalate "," (room :: others) ≠ "" := by
      intro empty
      cases others with
      | nil => exact named (by simpa using empty)
      | cons next others =>
        rw [String.intercalate_cons_cons, String.append_assoc, String.append_eq_empty_iff] at empty
        exact named empty.1
    simp [SettingKey.get, rooms, shown]

/-- Valid defaults: a key is shown as not set exactly if routines find no value for it, but for a
backend of blank characters. -/
theorem get_eq_none_iff (valid : d.Valid) (k : SettingKey) :
    k.get d = none ↔ (Defaults.resolve none d).Lacks k ∧ ¬(k = .backend ∧ d.ShowsBlank) := by
  cases k with
  | backend =>
    rw [lacks_backend_iff valid]
    have empty : Text.blank "" = true := rfl
    by_cases nothing : d.backend = ""
    · simp [SettingKey.get, ShowsBlank, nothing, empty]
    · simp [SettingKey.get, ShowsBlank, nothing]
  | rooms => simp [get_rooms_eq_none_iff valid, ResolvedDefaults.Lacks, resolve]
  | volume =>
    cases volume : d.volume with
    | none => simp [SettingKey.get, ResolvedDefaults.Lacks, resolve, volume]
    | some v =>
      have there := byte?_isSome (valid.volume v volume)
      simp [SettingKey.get, ResolvedDefaults.Lacks, resolve, volume,
        Option.isSome_iff_ne_none.mp there]
  | shuffle => simp [SettingKey.get, ResolvedDefaults.Lacks, resolve]

end Defaults

/-- Whatever becomes of an opened store: a key is shown as not set exactly if routines find no value
for it. The one exception is a backend of blank characters, which is shown although routines find
none, and which can only come from the file that was opened. -/
theorem shown_unless_lacking {files : Files} {path key : String} {store final : Store}
    {k : SettingKey} (opened : Store.load files path = .ok store) (later : store.Leads final)
    (named : k.IsNamed key) :
    (¬(k = .backend ∧ final.settings.defaults.ShowsBlank) →
      (final.get key = .ok none ↔
        (Defaults.resolve none final.settings.defaults).Lacks k)) ∧
    (k = .backend ∧ final.settings.defaults.ShowsBlank →
      final.get key = .ok (some final.settings.defaults.backend) ∧
      (Defaults.resolve none final.settings.defaults).Lacks k ∧
      final.settings.defaults.backend = store.settings.defaults.backend) := by
  have validAtFirst : store.settings.defaults.Valid := Store.valid_of_load opened
  have valid : final.settings.defaults.Valid := (later.keeps validAtFirst).1
  rw [Store.get_of_isNamed named]
  constructor
  · intro regular
    simp [Defaults.get_eq_none_iff valid, regular]
  · rintro ⟨rfl, blank, nonempty⟩
    refine ⟨?_, (Defaults.lacks_backend_iff valid).mpr blank,
      later.backend_eq validAtFirst blank nonempty⟩
    simp [SettingKey.get, nonempty]

/-- The volume is cleared, so that routines find none; the backend is shown as it was opened. -/
theorem shown_unless_lacking_cleared :
    ∃ store final, Store.load (Settings.fileHolding
        "\x7b\"defaults\":\x7b\"backend\":\" \",\"volume\":5\x7d\x7d") "/config.json" = .ok store ∧
      store.Leads final ∧
      (final.get " volume " = .ok none ↔
        (Defaults.resolve none final.settings.defaults).Lacks .volume) ∧
      final.get "backend" = .ok (some " ") := by
  have opened : Store.load (Settings.fileHolding
      "\x7b\"defaults\":\x7b\"backend\":\" \",\"volume\":5\x7d\x7d") "/config.json" =
      .ok ⟨"/config.json", { defaults := { backend := " ", volume := some 5 } }⟩ :=
    toOption_eq_some_iff.mp (by decide +kernel)
  have later : Store.Leads ⟨"/config.json", { defaults := { backend := " ", volume := some 5 } }⟩
      ⟨"/config.json", { defaults := { backend := " " } }⟩ :=
    .call (c := .unset "volume") .refl (rfl : Store.call _ {} _ = _)
  refine ⟨_, _, opened, later, ?_, ?_⟩
  · exact (shown_unless_lacking opened later (by decide)).1 (by simp)
  · exact ((shown_unless_lacking opened later (by decide)).2 ⟨rfl, rfl, by decide⟩).1

/-- A backend of blank characters is shown, and routines find none. -/
theorem blank_backend_shown :
    ∃ store, Store.load (Settings.fileHolding
        "\x7b\"defaults\":\x7b\"backend\":\" \"\x7d\x7d") "/config.json" = .ok store ∧
      store.get "backend" = .ok (some " ") ∧
      (Defaults.resolve none store.settings.defaults).Lacks .backend :=
  ⟨⟨"/config.json", { defaults := { backend := " " } }⟩,
    toOption_eq_some_iff.mp (by decide +kernel), rfl, rfl⟩

/-- A change of a reachable store that fails, however and whenever writing its settings may fail.
If the change is refused, the store is as before, and nothing is written. If the settings cannot be
written, the change stays in the store: the key has the value that it was given, and nothing else is
different. -/
theorem store_after_failed_change {s : Store} {c : Store.Call} (reachable : s.Reachable)
    (change : c ≠ .save) :
    (∀ files, s.call files c = s.callBy Store.writeFile files c) ∧
    ∀ {ω : Type} (write : Store → ω → Except FileFault Unit × ω) {world left : ω} {t : Store}
      {error : Settings.Error}, s.callBy write world c = (.error error, t, left) →
      ((∀ fault, error ≠ .file fault) → t = s ∧ left = world) ∧
      ∀ fault, error = .file fault → write t world = (.error fault, left) ∧
        ∃ k v, (Store.Request.call c).gives k = some v ∧
          t = s.withDefaults (s.settings.defaults.assign k v) := by
  refine ⟨fun files => s.call_eq_callBy files c, ?_⟩
  intro ω write world left t error failed
  rw [Store.callBy_eq reachable.valid] at failed
  cases asked : (Store.Request.call c).asked with
  | error refusal =>
    rw [asked] at failed
    cases failed
    refine ⟨fun _ => ⟨rfl, rfl⟩, ?_⟩
    rintro fault rfl
    exact absurd asked (Store.asked_unhindered _ fault)
  | ok effect =>
    obtain ⟨k, v, rfl, gives⟩ := Store.exists_gives_of_asked change asked
    rw [asked] at failed
    obtain ⟨rfl, fault, rfl, wrote⟩ := Store.commitBy_eq_error_iff.mp failed
    refine ⟨fun refused => absurd rfl (refused fault), ?_⟩
    rintro _ ⟨⟩
    exact ⟨wrote, k, v, gives, rfl⟩

/-- A file stands where the directory of the settings file should be. -/
def Files.blocked : Files := Files.put {} ["nested"] (.file [])

/-- A volume that is out of range is refused, and one that is in range cannot be written. -/
theorem store_after_failed_change_blocked :
    ∃ (s t u : Store) (refused : Settings.Error) (after left : Files), s.Reachable ∧
      s.call Files.blocked (.set "volume" "101") = (.error refused, t, after) ∧ t = s ∧
      s.call Files.blocked (.set "volume" "35") = (.error (.file .exists), u, left) ∧
      u.settings.defaults.volume = some 35 := by
  have reachable : Store.Reachable ⟨"/nested/config.json", {}⟩ :=
    ⟨{}, "/nested/config.json", _, rfl, .refl⟩
  have refused : Store.callBy Store.writeFile ⟨"/nested/config.json", {}⟩ Files.blocked
      (.set "volume" "101") = (.error (.invalid
        ⟨[.field "defaults", .field "volume"], .volumeRange 101⟩), _, Files.blocked) := rfl
  obtain ⟨u, left, unwritten⟩ : ∃ u left, Store.callBy Store.writeFile
      ⟨"/nested/config.json", {}⟩ Files.blocked (.set "volume" "35") =
        (.error (.file .exists), u, left) := ⟨_, _, rfl⟩
  obtain ⟨same, kept⟩ := store_after_failed_change reachable (c := .set "volume" "101") (by simp)
  obtain ⟨same', kept'⟩ := store_after_failed_change reachable (c := .set "volume" "35") (by simp)
  obtain ⟨-, k, v, gives, rfl⟩ := (kept' _ unwritten).2 _ rfl
  refine ⟨_, _, _, _, _, _, reachable, (same _).trans refused, ((kept _ refused).1 (by simp)).1,
    (same' _).trans unwritten, ?_⟩
  cases k with
  | volume =>
    cases gives
    rfl
  | backend => cases gives
  | rooms => cases gives
  | shuffle => cases gives

/-- A volume that could not be written is shown. -/
theorem unwritten_volume_shown :
    ∃ s : Store, s.Reachable ∧ ∃ t after,
      s.set Files.blocked "volume" "35" = (.error (.file .exists), t, after) ∧
      s.get "volume" = .ok none ∧ t.get "volume" = .ok (some "35") :=
  ⟨⟨"/nested/config.json", {}⟩, ⟨{}, "/nested/config.json", _, rfl, .refl⟩, _, _, rfl, rfl, rfl⟩

end RoomAudio
