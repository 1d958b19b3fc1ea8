import RoomAudio.Proofs.Settings.History

/-!
# Settings member by member

The members of a settings file are read one after the other. As long as no name occurs twice their
order does not matter: there are settings to read exactly if each of the known members can be read
by itself. So defaults of the wrong form take the shortcuts with them, but defaults that break a
rule do not.

## Main definitions

* `Json.IsObject` — a text is an object without repeated members.
* `Json.readMember` — reads one of the members by itself.
* `Settings.decode_object_iff` — which objects are settings.
* `shortcuts_outlive_defaults` — what becomes of the shortcuts.
-/

namespace RoomAudio

namespace Json

/-! ## Objects -/

/-- A text is an object with these members, and no two of them have the same name. -/
structure IsObject (text : List Char) (members : List (String × Tree)) : Prop where
  read : ∃ rest, Tree.read text = (.record (members.map fun m => (some m.1, m.2)), some rest) ∧
    (Tree.skipSpace rest).isEmpty = true
  whole : ∀ m ∈ members, m.2.isWhole = true
  distinct : (members.map Prod.fst).Nodup

section Members

variable {α δ : Type} {text : List Char} {members : List (String × Tree)}

/-- The members of an object are read in the order in which they stand there. -/
theorem fields_record (names : List String) (step : δ → String → Tree → Except Fault δ)
    (start : δ) (members : List (String × Tree)) :
    format.fields names step start (.record (members.map fun m => (some m.1, m.2))) =
      members.foldlM (fun draft m => step draft m.1 m.2) start := by
  change ((members.map _).map _).foldlM _ start = _
  rw [List.map_map, List.foldlM_map]
  rfl

/-- A text that is an object is decoded as its members are read. -/
theorem IsObject.decode_eq_ok_iff {read : Tree → Except Fault α} {a : α}
    (object : IsObject text members) :
    decode read text = .ok a ↔ read (.record (members.map fun m => (some m.1, m.2))) = .ok a := by
  obtain ⟨rest, tree, blank⟩ := object.read
  rw [decode, tree]
  change (do
    let a ← read _
    if (Tree.skipSpace rest).isEmpty then .ok a else .error .malformed) = .ok a ↔ _
  simp [except_bind_ok_iff, blank]

mutual

/-- Plain data has no broken part. -/
theorem isWhole_ofData : ∀ d : Data, (Tree.ofData d).isWhole = true
  | .null => rfl
  | .bool _ => rfl
  | .int _ => rfl
  | .text _ => rfl
  | .list items => areWhole_ofItems items
  | .record fields => membersWhole_ofFields fields

theorem areWhole_ofItems : ∀ items : List Data, Tree.areWhole (Tree.ofItems items) = true
  | [] => rfl
  | item :: items => by
    rw [Tree.ofItems, Tree.areWhole, isWhole_ofData item, areWhole_ofItems items]
    rfl

theorem membersWhole_ofFields :
    ∀ fields : List (String × Data), Tree.membersWhole (Tree.ofFields fields) = true
  | [] => rfl
  | (_, value) :: fields => by
    rw [Tree.ofFields, Tree.membersWhole, isWhole_ofData value, membersWhole_ofFields fields]
    rfl

end

/-- The text of a record is an object with the fields of this record. -/
theorem isObject_pretty (fields : List (String × Data))
    (distinct : (fields.map Prod.fst).Nodup) :
    IsObject (pretty (.record fields)).toList (fields.map fun f => (f.1, Tree.ofData f.2)) where
  read := by
    refine ⟨[], ?_, rfl⟩
    rw [Tree.read_pretty, Tree.ofData, Tree.ofFields_eq_map, List.map_map]
    rfl
  whole := by
    intro m mem
    obtain ⟨field, -, rfl⟩ := List.mem_map.mp mem
    exact isWhole_ofData field.2
  distinct := by
    rw [List.map_map]
    exact distinct

def readMember (read : Tree → Except Fault α) (name : String) (members : List (String × Tree)) :
    Except Fault (Option α) :=
  (members.lookup name).mapM read

variable {read : Tree → Except Fault α} {name : String}

theorem lookup_of_not_mem (absent : name ∉ members.map Prod.fst) : members.lookup name = none := by
  refine List.lookup_eq_none_iff.mpr fun m mem => ?_
  rw [bne_iff_ne]
  rintro rfl
  exact absent (List.mem_map_of_mem mem)

theorem readMember_of_not_mem (absent : name ∉ members.map Prod.fst) :
    readMember read name members = .ok none := by
  rw [readMember, lookup_of_not_mem absent]
  rfl

/-- A member with another name does not matter. -/
theorem readMember_concat_of_ne {other : String} (ne : name ≠ other) (node : Tree) :
    readMember read name (members ++ [(other, node)]) = readMember read name members := by
  have skipped : [(other, node)].lookup name = none := by simp [ne]
  rw [readMember, List.lookup_append, skipped, Option.or_none]
  rfl

/-- A new member is read by itself. -/
theorem readMember_concat_eq_ok_iff (absent : name ∉ members.map Prod.fst) {node : Tree}
    {found : Option α} : readMember read name (members ++ [(name, node)]) = .ok found ↔
      ∃ a, read node = .ok a ∧ found = some a := by
  have last : (members ++ [(name, node)]).lookup name = some node := by
    rw [List.lookup_append, lookup_of_not_mem absent]
    simp
  rw [readMember, last, Option.mapM_some]
  cases read node with
  | error fault => simp [Functor.map, Except.map]
  | ok a => simp [Functor.map, Except.map, @eq_comm _ _ found]

/-- A member that must not be repeated. -/
theorem once_bind_eq_ok_iff {before : Option α} {result : Except Fault α} {set : Option α → δ}
    {d : δ} : (do return set (← Format.once before result)) = Except.ok d ↔
      before = none ∧ ∃ a, result = .ok a ∧ d = set (some a) := by
  cases before with
  | some a => simp [Format.once, bind, Except.bind, throw, throwThe, MonadExceptOf.throw]
  | none =>
    cases result with
    | error fault => simp [Format.once, Functor.map, Except.map]
    | ok a => simp [Format.once, Functor.map, Except.map, @eq_comm _ _ d]

end Members

end Json

namespace Settings

open Json

/-! ## The known members -/

inductive Member where
  | defaults | shortcuts | application
  deriving DecidableEq

namespace Member

abbrev Value : Member → Type
  | .defaults => Defaults
  | .shortcuts => Shortcuts
  | .application => String

def name : Member → String
  | .defaults => "defaults"
  | .shortcuts => "native"
  | .application => "airplay"

def read : (k : Member) → Tree → Except Fault k.Value
  | .defaults => Defaults.read Json.format
  | .shortcuts => Shortcuts.read Json.format
  | .application => readApplication Json.format

theorem name_ne {k k' : Member} (ne : k ≠ k') : k.name ≠ k'.name := by
  revert ne
  cases k <;> cases k' <;> decide

end Member

namespace Draft

variable {draft : Draft} {k k' : Member} {members : List (String × Tree)}

def part (draft : Draft) : (k : Member) → Option k.Value
  | .defaults => draft.defaults
  | .shortcuts => draft.shortcuts
  | .application => draft.application

def put (draft : Draft) : (k : Member) → Option k.Value → Draft
  | .defaults, v => { draft with defaults := v }
  | .shortcuts, v => { draft with shortcuts := v }
  | .application, v => { draft with application := v }

theorem part_put_self (v : Option k.Value) : (draft.put k v).part k = v := by
  cases k <;> rfl

/-- The other members keep what was read of them. -/
theorem part_put_of_ne (ne : k' ≠ k) (v : Option k.Value) :
    (draft.put k v).part k' = draft.part k' := by
  cases k <;> cases k' <;> first | rfl | exact absurd rfl ne

theorem put_put_part : (draft.put k none).put k (draft.part k) = draft := by
  cases k <;> rfl

/-- A member is read into its own part. -/
theorem readField_name (node : Tree) :
    readField Json.format draft k.name node =
      (do return draft.put k (← Format.once (draft.part k) (k.read node))) := by
  cases k <;> rfl

/-- A member that settings do not know is passed over. -/
theorem readField_other {name : String} {node : Tree} (other : ∀ k : Member, name ≠ k.name)
    (whole : node.isWhole = true) : readField Json.format draft name node = .ok draft := by
  have known : name ≠ "defaults" ∧ name ≠ "native" ∧ name ≠ "airplay" :=
    ⟨other .defaults, other .shortcuts, other .application⟩
  simp only [readField, known, if_false, Json.format, Tree.skip, whole, if_true]
  rfl

/-- Each part is what is left of its member when the member is read by itself. -/
def IsReadOf (draft : Draft) (members : List (String × Tree)) : Prop :=
  ∀ k : Member, readMember k.read k.name members = .ok (draft.part k)

theorem isReadOf_nil : draft.IsReadOf [] ↔ draft = {} := by
  constructor
  · intro parts
    have unread (k : Member) : draft.part k = none := (Except.ok.inj (parts k)).symm
    cases draft
    congr
    · exact unread .defaults
    · exact unread .shortcuts
    · exact unread .application
  · rintro rfl k
    cases k <;> rfl

/-- The next member is read by itself, if none of those before has its name. -/
theorem isReadOf_concat {name : String} {node : Tree} (absent : name ∉ members.map Prod.fst)
    (whole : node.isWhole = true) : draft.IsReadOf (members ++ [(name, node)]) ↔
      ∃ before : Draft, before.IsReadOf members ∧
        readField Json.format before name node = .ok draft := by
  by_cases known : ∃ k : Member, name = k.name
  · obtain ⟨k, rfl⟩ := known
    simp only [readField_name, once_bind_eq_ok_iff]
    constructor
    · intro parts
      obtain ⟨a, read, found⟩ := (readMember_concat_eq_ok_iff absent).mp (parts k)
      refine ⟨draft.put k none, fun k' => ?_, part_put_self none, a, read, ?_⟩
      · by_cases same : k' = k
        · subst same
          rw [part_put_self, readMember_of_not_mem absent]
        · rw [part_put_of_ne same, ← parts k', readMember_concat_of_ne (Member.name_ne same)]
      · rw [← found, put_put_part]
    · rintro ⟨before, parts, -, a, read, rfl⟩ k'
      by_cases same : k' = k
      · subst same
        rw [part_put_self]
        exact (readMember_concat_eq_ok_iff absent).mpr ⟨a, read, rfl⟩
      · rw [part_put_of_ne same, readMember_concat_of_ne (Member.name_ne same)]
        exact parts k'
  · have other : ∀ k : Member, name ≠ k.name := not_exists.mp known
    simp only [readField_other other whole, Except.ok.injEq, exists_eq_right]
    refine forall_congr' fun k => ?_
    rw [readMember_concat_of_ne (other k).symm]

/-- Reading the members one after the other and reading each of the known ones by itself is the
same, if there are no repeated ones. -/
theorem foldlM_readField_eq_ok_iff (whole : ∀ m ∈ members, m.2.isWhole = true)
    (distinct : (members.map Prod.fst).Nodup) :
    members.foldlM (fun draft m => readField Json.format draft m.1 m.2) {} = .ok draft ↔
      draft.IsReadOf members := by
  induction members using List.reverseRecOn generalizing draft with
  | nil =>
    rw [isReadOf_nil]
    constructor
    · rintro ⟨⟩
      rfl
    · rintro rfl
      rfl
  | append_singleton members m ih =>
    obtain ⟨name, node⟩ := m
    rw [List.map_append, List.nodup_append] at distinct
    obtain ⟨distinct, -, apart⟩ := distinct
    have absent : name ∉ members.map Prod.fst := fun mem => apart name mem name (by simp) rfl
    rw [isReadOf_concat absent (whole (name, node) (by simp)), List.foldlM_append,
      except_bind_ok_iff]
    simp only [ih (fun m mem => whole m (by simp [mem])) distinct, List.foldlM_cons,
      List.foldlM_nil, bind_pure]

end Draft

/-- An object is read as settings exactly if each of the known members can be read by itself. -/
theorem decode_object_iff {text : List Char} {members : List (String × Tree)} {s : Settings}
    (object : IsObject text members) :
    decode text = .ok s ↔ ∃ draft : Draft, draft.IsReadOf members ∧ s = draft.toSettings := by
  rw [decode, object.decode_eq_ok_iff, Settings.read, fields_record, except_bind_ok_iff]
  simp only [Draft.foldlM_readField_eq_ok_iff object.whole object.distinct]
  simp only [pure, Except.pure, Except.ok.injEq, @eq_comm _ s]

section Defaults

variable {text : List Char} {members : List (String × Tree)} {shortcuts : Shortcuts}

theorem shortcuts_withoutInvalid (s : Settings) : s.withoutInvalid.shortcuts = s.shortcuts := by
  unfold withoutInvalid
  split <;> rfl

/-- Defaults that can be read leave the shortcuts alone, whatever rules they break. -/
theorem shortcuts_ofText (object : IsObject text members)
    (native : readMember (Shortcuts.read Json.format) "native" members = .ok (some shortcuts))
    (airplay : (readMember (readApplication Json.format) "airplay" members).isOk = true)
    (defaults : (readMember (Defaults.read Json.format) "defaults" members).isOk = true) :
    (ofText text).shortcuts = shortcuts := by
  obtain ⟨app, application⟩ := isOk_iff.mp airplay
  obtain ⟨d, found⟩ := isOk_iff.mp defaults
  have parts : Draft.IsReadOf ⟨d, some shortcuts, app⟩ members := by
    intro k
    cases k with
    | defaults => exact found
    | shortcuts => exact native
    | application => exact application
  rw [ofText, (decode_object_iff object).mpr ⟨_, parts, rfl⟩]
  exact shortcuts_withoutInvalid _

/-- Defaults that cannot be read take everything else with them. -/
theorem ofText_of_unreadable (object : IsObject text members)
    (defaults : (readMember (Defaults.read Json.format) "defaults" members).isOk = false) :
    ofText text = {} := by
  cases read : decode text with
  | error fault => rw [ofText, read]
  | ok s =>
    obtain ⟨draft, parts, -⟩ := (decode_object_iff object).mp read
    have found : readMember (Defaults.read Json.format) "defaults" members = .ok draft.defaults :=
      parts .defaults
    rw [found] at defaults
    cases defaults

end Defaults

end Settings

/-- A settings file that holds an object whose shortcuts, and whose application if it names one, can
be read. If the defaults can be read too, whatever rules they break, the store has these shortcuts,
and it has them again when it is opened after any changes. If the defaults cannot be read, nothing
of the file counts. -/
theorem shortcuts_outlive_defaults {files : Files} {path : String} {text : List Char}
    {members : List (String × Json.Tree)} {shortcuts : Shortcuts}
    (held : files.read path = .ok (Text.Utf8.encode text)) (object : Json.IsObject text members)
    (native : Json.readMember (Shortcuts.read Json.format) "native" members = .ok (some shortcuts))
    (airplay :
      (Json.readMember (Settings.readApplication Json.format) "airplay" members).isOk = true) :
    ((Json.readMember (Defaults.read Json.format) "defaults" members).isOk = true →
      ∃ store, Store.load files path = .ok store ∧ store.settings.shortcuts = shortcuts ∧
        ∀ calls results final after, store.calls files calls = (results, final, after) →
          (∀ result ∈ results, result = .ok ()) →
            ∃ reopened, Store.load after path = .ok reopened ∧
              reopened.settings.shortcuts = shortcuts) ∧
    ((Json.readMember (Defaults.read Json.format) "defaults" members).isOk = false →
      Store.load files path = .ok ⟨path, {}⟩) := by
  constructor
  · intro readable
    have opened := Store.load_encode held
    have valid : (Settings.ofText text).defaults.Valid := Settings.valid_ofText text
    have tables : (Settings.ofText text).shortcuts = shortcuts :=
      Settings.shortcuts_ofText object native airplay readable
    refine ⟨_, opened, tables, ?_⟩
    intro calls results final after ran succeeded
    obtain ⟨validFinal, only⟩ := (Store.leads_of_calls ran).keeps valid
    have kept : final.settings.shortcuts = shortcuts := by
      rw [only]
      exact tables
    cases calls with
    | nil =>
      cases ran
      exact ⟨_, opened, tables⟩
    | cons c rest =>
      obtain ⟨result, others, middle, between, rfl, -, -⟩ := Store.calls_cons ran
      have first : result = .ok () := succeeded result (by simp)
      obtain ⟨samePath, -, saved⟩ := Store.calls_spec ran valid fun result mem fault => by
        simp [succeeded result mem]
      have reopened := (saved (.inl (by simp [first]))).load_eq validFinal
      rw [samePath] at reopened
      exact ⟨_, reopened, kept⟩
  · intro unreadable
    rw [Store.load_encode held, Settings.ofText_of_unreadable object unreadable]

/-- The fields of settings with a shortcut for one volume in one room, and any defaults. -/
def Settings.oneShortcut (defaults : Data) : List (String × Data) :=
  [("defaults", defaults), ("native",
    .record [("volumes", .record [("Den", .record [("1", .text "quiet")])])])]

/-- The shortcut stays where the volume breaks the rules, and it is lost where the volume is a
text. -/
theorem shortcuts_outlive_defaults_volume :
    (∃ store, Store.load (Settings.fileHolding (Json.pretty (.record
          (Settings.oneShortcut (.record [("volume", .int 101)]))))) "/config.json" = .ok store ∧
        store.settings.shortcuts.forVolume? "Den" 1 = some "quiet") ∧
      Store.load (Settings.fileHolding (Json.pretty (.record
        (Settings.oneShortcut (.record [("volume", .text "35")]))))) "/config.json" =
          .ok ⟨"/config.json", {}⟩ := by
  constructor
  · obtain ⟨store, opened, tables, -⟩ := (shortcuts_outlive_defaults (Settings.read_fileOf _)
      (Json.isObject_pretty (Settings.oneShortcut (.record [("volume", .int 101)])) (by decide))
      rfl rfl).1 rfl
    refine ⟨store, opened, ?_⟩
    rw [tables]
    decide
  · exact (shortcuts_outlive_defaults (Settings.read_fileOf _)
      (Json.isObject_pretty (Settings.oneShortcut (.record [("volume", .text "35")])) (by decide))
      rfl rfl).2 rfl

/-- An object with a shortcut that can be read; its volume is a text, and the shortcut is lost. -/
theorem shortcuts_lost_with_defaults :
    ∃ text members shortcuts store, Json.IsObject text members ∧
      Json.readMember (Shortcuts.read Json.format) "native" members = .ok (some shortcuts) ∧
      Json.readMember (Settings.readApplication Json.format) "airplay" members = .ok none ∧
      Store.load (Settings.fileOf (Text.Utf8.encode text)) "/config.json" = .ok store ∧
      store.settings.shortcuts ≠ shortcuts := by
  have object := Json.isObject_pretty (Settings.oneShortcut (.record [("volume", .text "35")]))
    (by decide)
  refine ⟨_, _, _, _, object, rfl, rfl, Store.load_encode (Settings.read_fileOf _), ?_⟩
  rw [Settings.ofText_of_unreadable object rfl]
  decide

end RoomAudio
