import RoomAudio.Proofs.Settings.Persistence

/-!
# The store as a state machine

A store is asked for values and told to change them. As long as the defaults keep the rules, what a
request does to them depends on the request alone: at most it gives one key one value. So the keys
do not get into each other's way, and requests that concern different keys can change places.

## Main definitions

* `SettingKey.Value`, `Defaults.value`, `Defaults.assign` — the defaults key by key.
* `SettingKey.reading` — the value that a text stands for.
* `SettingKey.given` — the value that a text gives a key, whatever else is set.
* `Store.Request`, `Store.serveAll` — requests, one after the other.
* `Store.Request.effect`, `Store.serve_iff` — what a request does.
* `settings_machine` — what sequences of requests do.
-/

namespace RoomAudio

/-! ## Single keys -/

abbrev SettingKey.Value : SettingKey → Type
  | .backend => String
  | .rooms => List String
  | .volume => Option Int
  | .shuffle => Option Bool

def SettingKey.noValue : (k : SettingKey) → k.Value
  | .backend => ""
  | .rooms => []
  | .volume => none
  | .shuffle => none

namespace Defaults

def value (d : Defaults) : (k : SettingKey) → k.Value
  | .backend => d.backend
  | .rooms => d.rooms
  | .volume => d.volume
  | .shuffle => d.shuffle

/-- Gives one key a value and keeps the others. -/
def assign (d : Defaults) : (k : SettingKey) → k.Value → Defaults
  | .backend, v => { d with backend := v }
  | .rooms, v => { d with rooms := v }
  | .volume, v => { d with volume := v }
  | .shuffle, v => { d with shuffle := v }

variable {d : Defaults} {k k' : SettingKey} {v : k.Value} {v' : k'.Value}

@[simp] theorem value_assign_self : (d.assign k v).value k = v := by
  cases k <;> rfl

/-- The other keys keep their values. -/
theorem value_assign_of_ne (ne : k' ≠ k) : (d.assign k v).value k' = d.value k' := by
  cases k <;> cases k' <;> first | rfl | exact absurd rfl ne

theorem get_assign_of_ne (ne : k' ≠ k) : k'.get (d.assign k v) = k'.get d := by
  cases k <;> cases k' <;> first | rfl | exact absurd rfl ne

/-- Two keys are given their values in either order. -/
theorem assign_comm (ne : k' ≠ k) :
    (d.assign k v).assign k' v' = (d.assign k' v').assign k v := by
  cases k <;> cases k' <;> first | rfl | exact absurd rfl ne

/-- A key that is taken back is given no value. -/
theorem unset_eq_assign : k.unset d = d.assign k k.noValue := by
  cases k <;> rfl

/-! ### The rules key by key -/

def checkValue (path : Path) : (k : SettingKey) → k.Value → Except Problem Unit
  | .backend, name =>
    if !Text.blank name && (Backend.ofName? name).isNone then
      .error ⟨path ++ [.field "backend"], .unknownBackend name⟩
    else .ok ()
  | .volume, none => .ok ()
  | .volume, some level => checkVolume (path ++ [.field "volume"]) level
  | .rooms, names => checkRooms (path ++ [.field "rooms"]) names
  | .shuffle, _ => .ok ()

/-- Each key has a rule of its own. -/
theorem validate_eq_checkValue (path : Path) :
    d.validate path = (do
      checkValue path .backend d.backend
      checkValue path .volume d.volume
      checkValue path .rooms d.rooms) := by
  unfold validate checkValue
  dsimp only
  cases d.volume <;> split <;> rfl

/-- Defaults keep the rules exactly if every key keeps its own. -/
theorem valid_iff_checkValue (path : Path) :
    d.Valid ↔ ∀ k, checkValue path k (d.value k) = .ok () := by
  rw [← validate_ok_iff path, validate_eq_checkValue, check_bind_ok_iff, check_bind_ok_iff]
  constructor
  · rintro ⟨backend, volume, rooms⟩ k
    cases k with
    | backend => exact backend
    | rooms => exact rooms
    | volume => exact volume
    | shuffle => rfl
  · intro each
    exact ⟨each .backend, each .volume, each .rooms⟩

/-- When one key of valid defaults is changed, only its own rule counts. -/
theorem checkDefaults_assign (valid : d.Valid) :
    Settings.checkDefaults (d.assign k v) = checkValue [.field "defaults"] k v := by
  have each := (valid_iff_checkValue [.field "defaults"]).mp valid
  have backend : checkValue [.field "defaults"] .backend d.backend = .ok () := each .backend
  have volume : checkValue [.field "defaults"] .volume d.volume = .ok () := each .volume
  have rooms : checkValue [.field "defaults"] .rooms d.rooms = .ok () := each .rooms
  rw [Settings.checkDefaults, validate_eq_checkValue]
  cases k with
  | backend =>
    simp only [assign, volume, rooms]
    cases checkValue [.field "defaults"] .backend v <;> rfl
  | rooms =>
    simp only [assign, backend, volume]
    rfl
  | volume =>
    simp only [assign, backend, rooms]
    cases checkValue [.field "defaults"] .volume v <;> rfl
  | shuffle =>
    simp only [assign, backend, volume, rooms]
    rfl

/-- A value that keeps its rule leaves the defaults in order. -/
theorem Valid.assign (valid : d.Valid) (kept : checkValue [.field "defaults"] k v = .ok ()) :
    (d.assign k v).Valid := by
  rw [← checkDefaults_assign valid] at kept
  exact (validate_ok_iff _ _).mp kept

end Defaults

namespace SettingKey

/-- The value that a text stands for, whether or not this value keeps the rules: the text itself,
the rooms that it lists between commas, an integer or a truth value. Blank characters around each of
them do not matter. -/
def reading : (k : SettingKey) → (name raw : String) → Except Settings.Error k.Value
  | .backend, _, raw => .ok (Text.trim raw)
  | .rooms, _, raw =>
    let parts := (Text.splitOn (· == ',') raw.toList).map String.ofList
    .ok ((parts.map Text.trim).filter (· ≠ ""))
  | .volume, name, raw =>
    match Text.int64? (Text.trim raw).toList with
    | some v => .ok (some v)
    | none => .error (.notInteger name)
  | .shuffle, name, raw =>
    if Text.trim raw = "true" then .ok (some true)
    else if Text.trim raw = "false" then .ok (some false)
    else .error (.notBool name)

/-- The value that a text gives a key, or what is wrong with it. No other setting has a say in
this. The key is called `name` when the text does not stand for a value. -/
def given (k : SettingKey) (name raw : String) : Except Settings.Error k.Value := do
  let value ← k.reading name raw
  (Defaults.checkValue [.field "defaults"] k value).mapError .invalid
  return value

theorem reading_rooms (name raw : String) : reading .rooms name raw = .ok (roomsOf raw) := by
  have trimmed : Text.trim ∘ String.ofList = fun l => String.ofList (Text.trimChars l) := by
    funext l
    simp [Text.trim]
  have named (room : String) : decide (room ≠ "") = !room.isEmpty := by
    rw [Bool.eq_iff_iff, decide_eq_true_iff, Bool.not_eq_true', ← Bool.not_eq_true,
      String.isEmpty_iff]
  simp only [reading, roomsOf, List.map_map, trimmed, named]

/-- A key is set to the value that the text stands for. -/
theorem set_eq_reading (k : SettingKey) (name raw : String) (d : Defaults) :
    k.set name raw d = (k.reading name raw).map (d.assign k) := by
  cases k with
  | backend => rfl
  | rooms =>
    rw [reading_rooms]
    rfl
  | volume =>
    simp only [set, reading, Text.trim, String.toList_ofList]
    cases Text.int64? (Text.trimChars raw.toList) <;> rfl
  | shuffle =>
    by_cases yes : Text.trim raw = "true"
    · simp [set, reading, boolOf?, yes, Except.map, Defaults.assign]
    · by_cases no : Text.trim raw = "false" <;>
        simp [set, reading, boolOf?, yes, no, Except.map, Defaults.assign]

/-- A text can be given to a key if its value keeps the rules. -/
theorem given_eq_ok_iff {k : SettingKey} {name raw : String} {v : k.Value} :
    k.given name raw = .ok v ↔
      k.reading name raw = .ok v ∧ Defaults.checkValue [.field "defaults"] k v = .ok () := by
  rw [given, except_bind_ok_iff]
  constructor
  · rintro ⟨v', read, kept⟩
    obtain ⟨kept, same⟩ := (check_bind_ok_iff _ _ _).mp kept
    cases same
    exact ⟨read, (mapError_eq_ok_iff _ _ _).mp kept⟩
  · rintro ⟨read, kept⟩
    exact ⟨v, read, (check_bind_ok_iff _ _ _).mpr ⟨(mapError_eq_ok_iff _ _ _).mpr kept, rfl⟩⟩

theorem checkValue_noValue (k : SettingKey) (path : Path) :
    Defaults.checkValue path k k.noValue = .ok () := by
  cases k <;> rfl

/-- The names of a key: the long and the short one, with blank characters around them or not. -/
def IsNamed (k : SettingKey) (raw : String) : Prop :=
  Text.trim raw = k.name ∨ Text.trim raw = k.shortName

instance (k : SettingKey) (raw : String) : Decidable (k.IsNamed raw) :=
  inferInstanceAs (Decidable (_ ∨ _))

/-- No two keys have a name in common. -/
theorem eq_of_names {k k' : SettingKey} {name : String} (h : name = k.name ∨ name = k.shortName)
    (h' : name = k'.name ∨ name = k'.shortName) : k = k' := by
  rcases h with rfl | rfl <;> revert h' <;> cases k <;> cases k' <;> decide

/-- A key is found exactly by its names. -/
theorem ofName_eq_ok_iff {raw : String} {k : SettingKey} : ofName raw = .ok k ↔ k.IsNamed raw := by
  have names (k : SettingKey) :
      (decide (k.name = Text.trim raw) || decide (k.shortName = Text.trim raw)) = true ↔
        k.IsNamed raw := by
    rw [Bool.or_eq_true, decide_eq_true_iff, decide_eq_true_iff, IsNamed, @eq_comm _ k.name,
      @eq_comm _ k.shortName]
  unfold ofName
  dsimp only
  constructor
  · intro h
    split at h
    · rename_i found
      cases h
      have fits := List.find?_some found
      exact (names k).mp fits
    · cases h
  · intro named
    split
    · rename_i k' found
      have fits := List.find?_some found
      exact congrArg Except.ok (eq_of_names ((names k').mp fits) named)
    · rename_i missing
      have known : k ∈ all := by cases k <;> decide
      exact absurd ((names k).mpr named) (List.find?_eq_none.mp missing k known)

end SettingKey

/-! ## Requests -/

namespace Store

/-- What is asked of a store: the value of a key, or an operation. -/
inductive Request where
  | get (key : String)
  | call (c : Call)

inductive Answer where
  | value (result : Except Settings.Error (Option String))
  | done (result : Except Settings.Error Unit)

namespace Answer

def isOk : Answer → Bool
  | .value result => result.isOk
  | .done result => result.isOk

/-- The file could be written, if it came to that. -/
def Unhindered (a : Answer) : Prop := ∀ fault, a ≠ .done (.error (.file fault))

end Answer

def serve (s : Store) (files : Files) : Request → Answer × Store × Files
  | .get key => (.value (s.get key), s, files)
  | .call c =>
    let (result, s, files) := s.call files c
    (.done result, s, files)

/-- Answers requests one after the other, whether or not they succeed. -/
def serveAll (s : Store) (files : Files) : List Request → List Answer × Store × Files
  | [] => ([], s, files)
  | r :: rest =>
    let (answer, s, files) := s.serve files r
    let (answers, s, files) := s.serveAll files rest
    (answer :: answers, s, files)

/-- What a request does to a store whose defaults keep the rules. -/
inductive Effect where
  | nothing
  /-- The settings are written as they are. -/
  | write
  /-- A key is given a value, and the settings are written. -/
  | assign (k : SettingKey) (v : k.Value)

def Effect.apply (d : Defaults) : Effect → Defaults
  | .assign k v => d.assign k v
  | _ => d

namespace Request

/-- The key that a request concerns, if there is one of that name. -/
def key? : Request → Option SettingKey
  | .get key => (SettingKey.ofName key).toOption
  | .call (.set key _) => (SettingKey.ofName key).toOption
  | .call (.unset key) => (SettingKey.ofName key).toOption
  | .call .save => none

def Apart (a b : Request) : Prop := ∀ k, a.key? = some k → b.key? ≠ some k

def gives (k : SettingKey) : Request → Option k.Value
  | .get _ => none
  | .call (.set key raw) =>
    if k.IsNamed key then (k.given (Text.trim key) raw).toOption else none
  | .call (.unset key) => if k.IsNamed key then some k.noValue else none
  | .call .save => none

/-- What a request asks for, or why it is refused. -/
def asked : Request → Except Settings.Error Effect
  | .get _ => .ok .nothing
  | .call (.set key raw) => do
    let k ← SettingKey.ofName key
    return .assign k (← k.given (Text.trim key) raw)
  | .call (.unset key) => do
    let k ← SettingKey.ofName key
    return .assign k k.noValue
  | .call .save => .ok .write

def effect (r : Request) : Effect :=
  match r.asked with
  | .ok effect => effect
  | .error _ => .nothing

def reply (d : Defaults) : Request → Answer
  | .get key => .value ((SettingKey.ofName key).map fun k => k.get d)
  | .call c => .done ((Request.call c).asked.map fun _ => ())

end Request

/-- Whether a text can be given to the key of that name, and what is wrong otherwise. -/
def verdict (key raw : String) : Except Settings.Error Unit :=
  (Request.call (.set key raw)).asked.map fun _ => ()

/-! ### What a request does -/

variable {s t : Store} {files after : Files}

/-- A change of valid defaults gives a value to one key, and which one depends on the texts. -/
theorem changed_eq (valid : s.settings.defaults.Valid) (key raw : String) :
    s.changed key raw = (do
      let k ← SettingKey.ofName key
      let v ← k.given (Text.trim key) raw
      return s.settings.defaults.assign k v) := by
  unfold changed SettingKey.given
  cases SettingKey.ofName key with
  | error error => rfl
  | ok k =>
    simp only [bind, Except.bind]
    rw [SettingKey.set_eq_reading]
    cases k.reading (Text.trim key) raw with
    | error error => rfl
    | ok v =>
      simp only [Except.map, Defaults.checkDefaults_assign valid]
      cases Defaults.checkValue [.field "defaults"] k v <;> rfl

theorem withDefaults_self : s.withDefaults s.settings.defaults = s := rfl

/-- An operation is refused, or it takes over the defaults that it asks for. -/
theorem call_eq (valid : s.settings.defaults.Valid) (c : Call) :
    s.call files c = match (Request.call c).asked with
      | .error error => (.error error, s, files)
      | .ok effect => s.commit files (effect.apply s.settings.defaults) := by
  cases c with
  | save =>
    change _ = s.commit files s.settings.defaults
    rw [commit, withDefaults_self, call]
  | unset key =>
    rw [call, unset, Request.asked]
    cases SettingKey.ofName key with
    | error error => rfl
    | ok k => exact congrArg (s.commit files) Defaults.unset_eq_assign
  | set key raw =>
    rw [call, set, changed_eq valid, Request.asked]
    cases SettingKey.ofName key with
    | error error => rfl
    | ok k =>
      simp only [bind, Except.bind]
      cases k.given (Text.trim key) raw <;> rfl

theorem ne_nothing_of_asked {c : Call} {effect : Effect}
    (h : (Request.call c).asked = .ok effect) : effect ≠ .nothing := by
  rintro rfl
  cases c with
  | save => cases h
  | unset key =>
    rw [Request.asked, except_bind_ok_iff] at h
    obtain ⟨k, -, h⟩ := h
    cases h
  | set key raw =>
    rw [Request.asked, except_bind_ok_iff] at h
    obtain ⟨k, -, h⟩ := h
    rw [except_bind_ok_iff] at h
    obtain ⟨v, -, h⟩ := h
    cases h

/-- What becomes of the file: unless a request has no effect, it holds the settings afterwards. -/
def Effect.Leaves (t : Store) (files after : Files) : Effect → Prop
  | .nothing => after = files
  | _ => files.save t.path (Text.Utf8.encode t.settings.print.toList) = (.ok (), after)

theorem Effect.leaves_iff {effect : Effect} (writes : effect ≠ .nothing) :
    effect.Leaves t files after ↔
      files.save t.path (Text.Utf8.encode t.settings.print.toList) = (.ok (), after) := by
  cases effect with
  | nothing => exact absurd rfl writes
  | write => exact Iff.rfl
  | assign k v => exact Iff.rfl

theorem save_eq_ok_iff : s.save files = (.ok (), after) ↔
    files.save s.path (Text.Utf8.encode s.settings.print.toList) = (.ok (), after) := by
  unfold save
  cases files.save s.path (Text.Utf8.encode s.settings.print.toList) with
  | mk result left =>
    dsimp only
    rw [Prod.mk.injEq, Prod.mk.injEq, mapError_eq_ok_iff]

/-- Taking over defaults and being hindered by nothing means that the file is written. -/
theorem commit_iff {d : Defaults} {result : Except Settings.Error Unit} :
    s.commit files d = (result, t, after) ∧ Store.Unhindered result ↔
      result = .ok () ∧ t = s.withDefaults d ∧
        files.save t.path (Text.Utf8.encode t.settings.print.toList) = (.ok (), after) := by
  rw [commit]
  cases saved : (s.withDefaults d).save files with
  | mk result' left =>
    constructor
    · rintro ⟨h, unhindered⟩
      cases h
      obtain ⟨rfl, -⟩ := save_spec saved unhindered
      exact ⟨rfl, rfl, save_eq_ok_iff.mp saved⟩
    · rintro ⟨rfl, rfl, good⟩
      rw [← save_eq_ok_iff, saved] at good
      cases good
      exact ⟨rfl, fun fault => by simp⟩

/-- A request is refused for reasons that have nothing to do with the file. -/
theorem asked_unhindered (r : Request) (fault : FileFault) : r.asked ≠ .error (.file fault) := by
  have name (key : String) : SettingKey.ofName key ≠ .error (.file fault) := by
    unfold SettingKey.ofName
    dsimp only
    split <;> simp
  have parsed (k : SettingKey) (key raw : String) : k.reading key raw ≠ .error (.file fault) := by
    cases k with
    | backend => simp [SettingKey.reading]
    | rooms => simp [SettingKey.reading]
    | volume =>
      simp only [SettingKey.reading]
      split <;> simp
    | shuffle =>
      simp only [SettingKey.reading]
      split
      · simp
      · split <;> simp
  have given (k : SettingKey) (key raw : String) : k.given key raw ≠ .error (.file fault) := by
    intro h
    rw [SettingKey.given, except_bind_error_iff] at h
    rcases h with h | ⟨e, -, h⟩
    · exact parsed k key raw h
    · rw [except_bind_error_iff, mapError_eq_error_iff] at h
      rcases h with ⟨problem, -, h⟩ | ⟨u, -, h⟩ <;> cases h
  intro h
  cases r with
  | get key => cases h
  | call c =>
    cases c with
    | save => cases h
    | unset key =>
      rw [Request.asked, except_bind_error_iff] at h
      rcases h with h | ⟨k, -, h⟩
      · exact name key h
      · cases h
    | set key raw =>
      rw [Request.asked, except_bind_error_iff] at h
      rcases h with h | ⟨k, -, h⟩
      · exact name key h
      · rw [except_bind_error_iff] at h
        rcases h with h | ⟨v, -, h⟩
        · exact given k _ raw h
        · cases h

theorem reply_unhindered (r : Request) (d : Defaults) : (r.reply d).Unhindered := by
  intro fault
  cases r with
  | get key => simp [Request.reply]
  | call c => simpa [Request.reply, map_eq_error_iff] using asked_unhindered (.call c) fault

/-- A call is answered by what comes of it. -/
theorem serve_call_iff {c : Call} {answer : Answer} :
    s.serve files (.call c) = (answer, t, after) ∧ answer.Unhindered ↔
      ∃ result, answer = .done result ∧
        s.call files c = (result, t, after) ∧ Store.Unhindered result := by
  rw [serve]
  cases s.call files c with
  | mk result left =>
    constructor
    · rintro ⟨h, unhindered⟩
      cases h
      exact ⟨result, rfl, rfl, fun fault bad => unhindered fault (by rw [bad])⟩
    · rintro ⟨result, rfl, h, unhindered⟩
      cases h
      exact ⟨rfl, fun fault bad => unhindered fault (by cases bad; rfl)⟩

/-- A request to a store whose defaults keep the rules, when the file can be written: it is
answered, and what it has done, is up to the request and to the values of the keys. -/
theorem serve_iff (valid : s.settings.defaults.Valid) (r : Request) {answer : Answer} :
    s.serve files r = (answer, t, after) ∧ answer.Unhindered ↔
      answer = r.reply s.settings.defaults ∧
        t = s.withDefaults (r.effect.apply s.settings.defaults) ∧
        r.effect.Leaves t files after := by
  cases r with
  | get key =>
    constructor
    · rintro ⟨h, -⟩
      cases h
      exact ⟨rfl, rfl, rfl⟩
    · rintro ⟨rfl, rfl, rfl⟩
      exact ⟨rfl, reply_unhindered _ _⟩
  | call c =>
    rw [serve_call_iff, call_eq valid, Request.effect, Request.reply]
    cases asked : (Request.call c).asked with
    | error error =>
      constructor
      · rintro ⟨result, rfl, h, -⟩
        cases h
        exact ⟨rfl, rfl, rfl⟩
      · rintro ⟨rfl, rfl, rfl⟩
        refine ⟨_, rfl, rfl, fun fault bad => ?_⟩
        cases bad
        exact asked_unhindered _ fault asked
    | ok effect =>
      have writes : effect ≠ .nothing := ne_nothing_of_asked asked
      simp only [commit_iff, Effect.leaves_iff writes, Except.map]
      constructor
      · rintro ⟨result, rfl, rfl, rest⟩
        exact ⟨rfl, rest⟩
      · rintro ⟨rfl, rest⟩
        exact ⟨_, rfl, rfl, rest⟩

/-! ### Keys one by one -/

section Keys

variable {d : Defaults} {r : Request} {k : SettingKey} {v : k.Value}

/-- A request asks for a key to be changed exactly if it names this key and gives it a value. -/
theorem asked_eq_assign_iff : r.asked = .ok (.assign k v) ↔ r.gives k = some v := by
  cases r with
  | get key => simp [Request.asked, Request.gives]
  | call c =>
    cases c with
    | save => simp [Request.asked, Request.gives]
    | unset key =>
      simp only [Request.asked, Request.gives, except_bind_ok_iff, SettingKey.ofName_eq_ok_iff]
      constructor
      · rintro ⟨k', named, h⟩
        cases h
        rw [if_pos named]
      · intro h
        split at h
        · rename_i named
          cases h
          exact ⟨k, named, rfl⟩
        · cases h
    | set key raw =>
      simp only [Request.asked, Request.gives, except_bind_ok_iff, SettingKey.ofName_eq_ok_iff]
      constructor
      · rintro ⟨k', named, v', given, h⟩
        cases h
        rw [if_pos named, given]
        rfl
      · intro h
        split at h
        · rename_i named
          cases given : k.given (Text.trim key) raw with
          | error error =>
            rw [given] at h
            cases h
          | ok v' =>
            rw [given] at h
            cases h
            exact ⟨k, named, v, given, rfl⟩
        · cases h

/-- What a request gives a key keeps the rule for this key. -/
theorem checkValue_of_gives (h : r.gives k = some v) :
    Defaults.checkValue [.field "defaults"] k v = .ok () := by
  rw [← asked_eq_assign_iff] at h
  cases r with
  | get key => cases h
  | call c =>
    cases c with
    | save => cases h
    | unset key =>
      rw [Request.asked, except_bind_ok_iff] at h
      obtain ⟨k', -, h⟩ := h
      cases h
      exact k.checkValue_noValue _
    | set key raw =>
      rw [Request.asked, except_bind_ok_iff] at h
      obtain ⟨k', -, h⟩ := h
      rw [except_bind_ok_iff] at h
      obtain ⟨v', given, h⟩ := h
      cases h
      exact (SettingKey.given_eq_ok_iff.mp given).2

theorem key?_of_gives (h : r.gives k = some v) : r.key? = some k := by
  rw [← asked_eq_assign_iff] at h
  cases r with
  | get key => cases h
  | call c =>
    cases c with
    | save => cases h
    | unset key =>
      rw [Request.asked, except_bind_ok_iff] at h
      obtain ⟨k', named, h⟩ := h
      cases h
      simp [Request.key?, named, Except.toOption]
    | set key raw =>
      rw [Request.asked, except_bind_ok_iff] at h
      obtain ⟨k', named, h⟩ := h
      rw [except_bind_ok_iff] at h
      obtain ⟨v', -, h⟩ := h
      cases h
      simp [Request.key?, named, Except.toOption]

/-- Only a request that gives a key a value has this effect. -/
theorem effect_eq_assign_iff : r.effect = .assign k v ↔ r.gives k = some v := by
  rw [← asked_eq_assign_iff, Request.effect]
  cases r.asked <;> simp

/-- No request breaks the rules. -/
theorem valid_apply (valid : d.Valid) (r : Request) : (r.effect.apply d).Valid := by
  cases effect : r.effect with
  | nothing => exact valid
  | write => exact valid
  | assign k v => exact valid.assign (checkValue_of_gives (effect_eq_assign_iff.mp effect))

theorem isOk_of_gives (h : r.gives k = some v) (d : Defaults) : (r.reply d).isOk = true := by
  rw [← asked_eq_assign_iff] at h
  cases r with
  | get key => cases h
  | call c =>
    rw [Request.reply, h]
    rfl

/-- A key has the value that a successful request has given it, or keeps its value. -/
theorem value_apply (d : Defaults) (r : Request) (k : SettingKey) :
    (r.effect.apply d).value k =
      (if (r.reply d).isOk then r.gives k else none).getD (d.value k) := by
  cases gives : r.gives k with
  | some v =>
    rw [isOk_of_gives gives, effect_eq_assign_iff.mpr gives]
    exact Defaults.value_assign_self
  | none =>
    rw [ite_self, Option.getD_none]
    cases effect : r.effect with
    | nothing => rfl
    | write => rfl
    | assign k' v =>
      refine Defaults.value_assign_of_ne ?_
      rintro rfl
      rw [effect_eq_assign_iff, gives] at effect
      cases effect

/-! ### Requests that change places -/

/-- A request does not notice what is given to the key of another one. -/
theorem reply_apply {a b : Request} (apart : a.Apart b) (d : Defaults) :
    b.reply (a.effect.apply d) = b.reply d := by
  cases b with
  | call c => rfl
  | get key =>
    cases effect : a.effect with
    | nothing => rfl
    | write => rfl
    | assign k v =>
      simp only [Request.reply, Effect.apply]
      cases named : SettingKey.ofName key with
      | error error => rfl
      | ok k' =>
        have ne : k' ≠ k := by
          rintro rfl
          refine apart k' (key?_of_gives (effect_eq_assign_iff.mp effect)) ?_
          simp [Request.key?, named, Except.toOption]
        simp only [Except.map, Defaults.get_assign_of_ne ne]

/-- Requests that concern different keys may change places. -/
theorem apply_comm {a b : Request} (apart : a.Apart b) (d : Defaults) :
    b.effect.apply (a.effect.apply d) = a.effect.apply (b.effect.apply d) := by
  cases first : a.effect with
  | nothing => rfl
  | write => rfl
  | assign k v =>
    cases second : b.effect with
    | nothing => rfl
    | write => rfl
    | assign k' v' =>
      refine Defaults.assign_comm ?_
      rintro rfl
      exact apart k' (key?_of_gives (effect_eq_assign_iff.mp first))
        (key?_of_gives (effect_eq_assign_iff.mp second))

theorem Request.Apart.symm {a b : Request} (apart : a.Apart b) : b.Apart a :=
  fun k second first => apart k first second

end Keys

/-- The order in which two effects reach the file does not matter, if the same is left in the
end. -/
theorem leaves_swap {first second : Effect} {middle middle' : Store} {between : Files}
    (path : middle.path = t.path) (path' : middle'.path = t.path)
    (idle : first = .nothing → middle' = t) (idle' : second = .nothing → middle = t)
    (left : first.Leaves middle files between) (left' : second.Leaves t between after) :
    ∃ between', second.Leaves middle' files between' ∧ first.Leaves t between' after := by
  by_cases resting : first = .nothing
  · subst resting
    obtain rfl : between = files := left
    rw [idle rfl]
    exact ⟨after, left', rfl⟩
  by_cases resting' : second = .nothing
  · subst resting'
    obtain rfl : after = between := left'
    rw [idle' rfl] at left
    exact ⟨files, rfl, left⟩
  simp only [Effect.leaves_iff resting, Effect.leaves_iff resting', path, path'] at left left' ⊢
  -- both of them write: the file could be written, so it can be written with other contents too
  obtain ⟨between', written, -⟩ :=
    Files.save_save (Text.Utf8.encode middle'.settings.print.toList) left
  obtain ⟨last, direct, again⟩ :=
    Files.save_save (Text.Utf8.encode t.settings.print.toList) left
  obtain rfl : last = after := by
    rw [again] at left'
    exact (Prod.ext_iff.mp left').2
  obtain ⟨last', direct', again'⟩ :=
    Files.save_save (Text.Utf8.encode t.settings.print.toList) written
  obtain rfl : last' = last := by
    rw [direct'] at direct
    exact (Prod.ext_iff.mp direct).2
  exact ⟨between', written, again'⟩

/-- Two requests that concern different keys can change places: each of them is answered as before,
and what is left in the store and in the file is the same. -/
theorem serve_swap {a b : Request} (apart : a.Apart b) (valid : s.settings.defaults.Valid)
    {x y : Answer} {middle : Store} {between : Files}
    (first : s.serve files a = (x, middle, between) ∧ x.Unhindered)
    (second : middle.serve between b = (y, t, after) ∧ y.Unhindered) :
    ∃ middle' between', (s.serve files b = (y, middle', between') ∧ y.Unhindered) ∧
      middle'.serve between' a = (x, t, after) ∧ x.Unhindered := by
  let d := s.settings.defaults
  let middle' := s.withDefaults (b.effect.apply d)
  obtain ⟨answered, moved, left⟩ := (serve_iff valid a).mp first
  have validMiddle : middle.settings.defaults.Valid := by
    rw [moved]
    exact valid_apply valid a
  have validMiddle' : middle'.settings.defaults.Valid := valid_apply valid b
  obtain ⟨answered', moved', left'⟩ := (serve_iff validMiddle b).mp second
  have last : t = middle'.withDefaults (a.effect.apply (b.effect.apply d)) := by
    rw [moved', moved, ← apply_comm apart]
    rfl
  have idle (resting : a.effect = .nothing) : middle' = t := by
    rw [last, resting]
    rfl
  have idle' (resting : b.effect = .nothing) : middle = t := by
    rw [moved', resting]
    rfl
  have path : middle.path = t.path := by rw [moved']; rfl
  have path' : middle'.path = t.path := by rw [last]; rfl
  obtain ⟨between', left₁, left₂⟩ := leaves_swap path path' idle idle' left left'
  have reply : y = b.reply d := by rw [answered', moved, ← reply_apply apart d]; rfl
  have reply' : x = a.reply middle'.settings.defaults := by
    rw [answered, ← reply_apply apart.symm]
    rfl
  exact ⟨middle', between', (serve_iff valid b).mpr ⟨reply, rfl, left₁⟩,
    (serve_iff validMiddle' a).mpr ⟨reply', last, left₂⟩⟩

/-! ## Sequences of requests -/

section Sequences

variable {requests : List Request} {answers : List Answer}

/-- Requests are answered one after the other. -/
theorem serveAll_cons {r : Request} (h : s.serveAll files (r :: requests) = (answers, t, after)) :
    ∃ answer others middle between, answers = answer :: others ∧
      s.serve files r = (answer, middle, between) ∧
      middle.serveAll between requests = (others, t, after) := by
  rw [serveAll] at h
  cases first : s.serve files r with
  | mk answer next =>
    obtain ⟨middle, between⟩ := next
    cases others : middle.serveAll between requests with
    | mk others last =>
      rw [first] at h
      dsimp only at h
      rw [others] at h
      cases h
      exact ⟨answer, _, middle, between, rfl, rfl, others⟩

theorem serveAll_cons_eq {r : Request} {answer : Answer} {middle : Store} {between : Files}
    (first : s.serve files r = (answer, middle, between))
    (rest : middle.serveAll between requests = (answers, t, after)) :
    s.serveAll files (r :: requests) = (answer :: answers, t, after) := by
  simp only [serveAll, first, rest]

/-- The value that a key was given by the last successful request that gives it one. -/
def lastGiven (k : SettingKey) (requests : List Request) (answers : List Answer) :
    Option k.Value :=
  (requests.zip answers).reverse.findSome? fun (r, answer) =>
    if answer.isOk then r.gives k else none

/-- A later value of a key takes the place of an earlier one. -/
theorem lastGiven_cons (k : SettingKey) (r : Request) (answer : Answer) :
    lastGiven k (r :: requests) (answer :: answers) =
      (lastGiven k requests answers).or (if answer.isOk then r.gives k else none) := by
  simp only [lastGiven, List.zip_cons_cons, List.reverse_cons, List.findSome?_append,
    List.findSome?_singleton]

/-- Requests that are answered one after the other: the rules are kept, only the defaults change,
each key has the value that it was given last, and whether a value is accepted is up to the texts
alone. -/
theorem serveAll_spec (h : s.serveAll files requests = (answers, t, after))
    (valid : s.settings.defaults.Valid) (unhindered : ∀ answer ∈ answers, answer.Unhindered) :
    t.settings.defaults.Valid ∧ t = s.withDefaults t.settings.defaults ∧
      (∀ k, t.settings.defaults.value k =
        (lastGiven k requests answers).getD (s.settings.defaults.value k)) ∧
      ∀ (i : Nat) (key raw : String), requests[i]? = some (Request.call (.set key raw)) →
        answers[i]? = some (Answer.done (verdict key raw)) := by
  induction requests generalizing s files answers with
  | nil =>
    cases h
    exact ⟨valid, rfl, fun k => rfl, by simp⟩
  | cons r rest ih =>
    obtain ⟨answer, others, middle, between, rfl, first, later⟩ := serveAll_cons h
    obtain ⟨replied, moved, -⟩ :=
      (serve_iff valid r).mp ⟨first, unhindered answer (by simp)⟩
    have validMiddle : middle.settings.defaults.Valid := by
      rw [moved]
      exact valid_apply valid r
    obtain ⟨valid', only, values, verdicts⟩ :=
      ih later validMiddle fun a mem => unhindered a (by simp [mem])
    refine ⟨valid', ?_, fun k => ?_, fun i key raw asked => ?_⟩
    · rw [moved] at only
      exact only
    · have value : middle.settings.defaults.value k =
          (if answer.isOk then r.gives k else none).getD (s.settings.defaults.value k) := by
        rw [moved, replied]
        exact value_apply _ r k
      rw [values k, value, lastGiven_cons, Option.getD_or]
    · cases i with
      | succ i => simpa using verdicts i key raw (by simpa using asked)
      | zero =>
        obtain rfl : r = .call (.set key raw) := by simpa using asked
        simp [replied, Request.reply, verdict]

/-- Two neighbours among the requests that concern different keys can change places. -/
theorem serveAll_swap {a b : Request} (apart : a.Apart b) {before later : List Request}
    (h : s.serveAll files (before ++ a :: b :: later) = (answers, t, after))
    (valid : s.settings.defaults.Valid) (unhindered : ∀ answer ∈ answers, answer.Unhindered) :
    ∃ first x y last, answers = first ++ x :: y :: last ∧ first.length = before.length ∧
      s.serveAll files (before ++ b :: a :: later) = (first ++ y :: x :: last, t, after) := by
  induction before generalizing s files answers with
  | nil =>
    obtain ⟨x, others, middle, between, rfl, first, rest⟩ := serveAll_cons h
    obtain ⟨y, last, middle₂, between₂, rfl, second, rest'⟩ := serveAll_cons rest
    obtain ⟨middle', between', ⟨first', -⟩, second', -⟩ := serve_swap apart valid
      ⟨first, unhindered x (by simp)⟩ ⟨second, unhindered y (by simp)⟩
    exact ⟨[], x, y, last, rfl, rfl, serveAll_cons_eq first' (serveAll_cons_eq second' rest')⟩
  | cons r rest ih =>
    obtain ⟨answer, others, middle, between, rfl, served, tail⟩ := serveAll_cons h
    obtain ⟨-, moved, -⟩ := (serve_iff valid r).mp ⟨served, unhindered answer (by simp)⟩
    have validMiddle : middle.settings.defaults.Valid := by
      rw [moved]
      exact valid_apply valid r
    obtain ⟨first, x, y, last, rfl, length, swapped⟩ :=
      ih tail validMiddle fun a mem => unhindered a (by simp [mem])
    exact ⟨answer :: first, x, y, last, rfl, by simp [length], serveAll_cons_eq served swapped⟩

theorem valid_of_load {path : String} (h : load files path = .ok s) :
    s.settings.defaults.Valid := by
  unfold load at h
  cases loaded : Settings.load files path with
  | error error =>
    rw [loaded] at h
    cases h
  | ok settings =>
    rw [loaded] at h
    cases h
    exact Settings.valid_of_load loaded

end Sequences

end Store

/-- Whatever an opened store is asked, as long as the file can be written: its defaults keep the
rules; each key has the value that it was given by the last successful request that names it, or
the one that was opened; nothing else changes; whether a text is accepted as the value of a key, and
what is wrong with it, is up to the two alone; and neighbours that concern different keys can change
places without any trace in the answers, the settings and the file. -/
theorem settings_machine {files after : Files} {path : String} {store final : Store}
    {requests : List Store.Request} {answers : List Store.Answer}
    (opened : Store.load files path = .ok store)
    (served : store.serveAll files requests = (answers, final, after))
    (unhindered : ∀ answer ∈ answers, answer.Unhindered) :
    Settings.checkDefaults final.settings.defaults = .ok () ∧
    (∀ k, final.settings.defaults.value k =
      (Store.lastGiven k requests answers).getD (store.settings.defaults.value k)) ∧
    final.settings.shortcuts = store.settings.shortcuts ∧
    final.settings.application = store.settings.application ∧
    (∀ (i : Nat) (key raw : String), requests[i]? = some (Store.Request.call (.set key raw)) →
      answers[i]? = some (Store.Answer.done (Store.verdict key raw))) ∧
    ∀ before a b later, requests = before ++ a :: b :: later → a.Apart b →
      ∃ first x y last, answers = first ++ x :: y :: last ∧ first.length = before.length ∧
        store.serveAll files (before ++ b :: a :: later) =
          (first ++ y :: x :: last, final, after) := by
  have valid : store.settings.defaults.Valid := Store.valid_of_load opened
  obtain ⟨valid', only, values, verdicts⟩ := Store.serveAll_spec served valid unhindered
  refine ⟨(Defaults.validate_ok_iff _ _).mpr valid', values, ?_, ?_, verdicts, ?_⟩
  · rw [only]
    rfl
  · rw [only]
    rfl
  · rintro before a b later rfl apart
    exact Store.serveAll_swap apart served valid unhindered

/-- A volume that is out of range is refused, then the rooms are set, and both could as well be done
the other way round. -/
theorem settings_machine_rooms :
    ∃ refused final after,
      Store.serveAll ⟨"/config.json", {}⟩ {} [.call (.set "volume" "150"),
          .call (.set " defaults.rooms " "Den, Küche")] =
        ([.done (.error refused), .done (.ok ())], final, after) ∧
      final.settings.defaults.value .rooms = ["Den", "Küche"] ∧
      Store.serveAll ⟨"/config.json", {}⟩ {} [.call (.set " defaults.rooms " "Den, Küche"),
          .call (.set "volume" "150")] =
        ([.done (.ok ()), .done (.error refused)], final, after) := by
  have opened : Store.load {} "/config.json" = .ok ⟨"/config.json", {}⟩ := rfl
  obtain ⟨final, after, served⟩ : ∃ final after,
      Store.serveAll ⟨"/config.json", {}⟩ {} [.call (.set "volume" "150"),
          .call (.set " defaults.rooms " "Den, Küche")] =
        ([.done (.error (.invalid
          ⟨[.field "defaults", .field "volume"], .volumeRange 150⟩)), .done (.ok ())],
          final, after) := ⟨_, _, rfl⟩
  obtain ⟨-, values, -, -, -, swaps⟩ :=
    settings_machine opened served (by simp [Store.Answer.Unhindered])
  obtain ⟨first, x, y, last, same, length, swapped⟩ :=
    swaps [] _ _ [] rfl (by simp only [Store.Request.Apart]; decide)
  obtain rfl : first = [] := List.eq_nil_of_length_eq_zero length
  cases same
  exact ⟨_, final, after, served, (values .rooms).trans rfl, swapped⟩

end RoomAudio
