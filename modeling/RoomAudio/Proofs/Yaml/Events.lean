import RoomAudio.Proofs.Yaml.Tokens
import RoomAudio.Yaml.Event

/-!
# The events of written data

The grammar turns the tokens of a value into its events. It is the same whatever is expected after
the value, so that the proof goes along the data.

## Main definitions

* `Yaml.valueEvents` — the events of a value.
* `Yaml.Grammar.Emits` — what the grammar says from one state to a later one.
* `Yaml.eventsOf_documentTokens` — the events of a document.
-/

namespace RoomAudio.Yaml

mutual

def valueEvents : Data → List Event
  | .null => [.scalar {} .plain "null".toList]
  | .bool b => [.scalar {} .plain (Data.boolName b).toList]
  | .int i => [.scalar {} .plain (Data.decimal i)]
  | .text s => [.scalar {} (styleOf s.toList) s.toList]
  | .list items => .listStart {} :: itemEvents items ++ [.listEnd]
  | .record fields => .recordStart {} :: fieldEvents fields ++ [.recordEnd]
termination_by structural d => d

def itemEvents : List Data → List Event
  | [] => []
  | item :: items => valueEvents item ++ itemEvents items
termination_by structural l => l

def fieldEvents : List (String × Data) → List Event
  | [] => []
  | (name, value) :: fields =>
    .scalar {} .plain name.toList :: valueEvents value ++ fieldEvents fields
termination_by structural l => l

end

def documentEvents (d : Data) : List Event :=
  .documentStart :: valueEvents d ++ [.documentEnd, .streamEnd]

theorem valueEvents_eq_scalar {d : Data} {style : Style} {l : List Char}
    (h : scalar? d = some (style, l)) : valueEvents d = [.scalar {} style l] := by
  cases d with
  | list items => cases h
  | record fields => cases h
  | _ =>
    cases h
    rfl

/-- There are not many more events than tokens. -/
theorem length_valueEvents_le {d : Data} (regular : Regular d) :
    (valueEvents d).length ≤ 4 * (valueTokens d).length := by
  induction regular with
  | scalar h => simp [valueEvents_eq_scalar h, valueTokens_eq_scalar h]
  | @list items isItem regular ih =>
    have all : (itemEvents items).length + 4 * items.length ≤ 4 * (itemTokens items).length := by
      clear isItem regular
      induction items with
      | nil => simp [itemEvents, itemTokens]
      | cons d items others =>
        have first := ih d (by simp)
        have next := others fun e mem => ih e (List.mem_cons_of_mem d mem)
        simp only [itemEvents, itemTokens, List.length_append, List.length_cons]
        omega
    cases items with
    | nil => simp [valueEvents, itemEvents, valueTokens]
    | cons d items =>
      simp only [valueEvents, valueTokens, List.length_append, List.length_cons,
        List.length_nil] at all ⊢
      omega
  | @record fields isName regular ih =>
    have all : (fieldEvents fields).length ≤ 4 * (fieldTokens fields).length := by
      clear isName regular
      induction fields with
      | nil => simp [fieldEvents]
      | cons f fields others =>
        have first := ih f (by simp)
        have next := others fun g mem => ih g (List.mem_cons_of_mem f mem)
        simp only [fieldEvents, fieldTokens, List.length_append, List.length_cons]
        omega
    cases fields with
    | nil => simp [valueEvents, fieldEvents, valueTokens]
    | cons f fields =>
      simp only [valueEvents, valueTokens, List.length_append, List.length_cons,
        List.length_nil] at all ⊢
      omega

/-- A token that is neither a key or its colon nor the end of a block. -/
def BeginsValue (t : Token) : Prop := t ≠ .key ∧ t ≠ .value ∧ t ≠ .blockEnd

/-- An item begins with no entry of its own. -/
theorem valueTokens_eq_cons (d : Data) : ∃ t ts, valueTokens d = t :: ts ∧ BeginsValue t ∧
    (IsItem d → t ≠ .blockEntry) := by
  cases d with
  | list items =>
    cases items with
    | nil => exact ⟨_, _, rfl, by simp [BeginsValue]⟩
    | cons d items => exact ⟨.blockEntry, _, rfl, by simp [BeginsValue, IsItem]⟩
  | record fields => cases fields <;> exact ⟨_, _, rfl, by simp [BeginsValue]⟩
  | _ => exact ⟨_, _, rfl, by simp [BeginsValue]⟩

def EndsEntries (rest : List Token) : Prop := ∃ t ts, rest = t :: ts ∧ t ≠ .blockEntry

namespace Grammar

/-- The grammar says these events, one after the other, and is in another state then. -/
inductive Emits : Grammar → List Event → Grammar → Prop where
  | refl (g : Grammar) : Emits g [] g
  | step {g g' g'' : Grammar} {e : Event} {es : List Event} (first : g.step = some (e, g'))
      (next : Emits g' es g'') : Emits g (e :: es) g''

namespace Emits

variable {g g' g'' : Grammar} {es es' : List Event}

theorem trans (first : Emits g es g') (next : Emits g' es' g'') : Emits g (es ++ es') g'' := by
  induction first with
  | refl g => exact next
  | step first _ ih => exact .step first (ih next)

/-- A run says these events first and goes on in the state behind them. -/
theorem run_eq (h : Emits g es g') (limit : Nat) :
    g.run (es.length + limit) = es ++ g'.run limit := by
  induction h with
  | refl g => rw [List.length_nil, Nat.zero_add, List.nil_append]
  | step first _ ih =>
    rw [List.length_cons, Nat.add_right_comm, run, first]
    exact congrArg _ ih

end Emits

variable {t : Token} {rest ts : List Token} {later : List Expected} {expected next : Expected}
  {handles : List (List Char × List Char)}

/-! ## Steps -/

theorem step_bareListEntry (begins : BeginsValue t) (noEntry : t ≠ .blockEntry) :
    step ⟨.blockEntry :: t :: ts, .bareListEntry, later, handles⟩ =
      node ⟨t :: ts, .bareListEntry, .bareListEntry :: later, handles⟩ true false := by
  obtain ⟨noKey, noValue, noEnd⟩ := begins
  cases t with
  | blockEntry => exact absurd rfl noEntry
  | key => exact absurd rfl noKey
  | value => exact absurd rfl noValue
  | blockEnd => exact absurd rfl noEnd
  | _ => rfl

/-- A list whose entries have no block of their own ends before any other token. -/
theorem step_bareListEntry_end (noEntry : t ≠ .blockEntry) :
    step ⟨t :: ts, .bareListEntry, next :: later, handles⟩ =
      some (.listEnd, ⟨t :: ts, next, later, handles⟩) := by
  cases t with
  | blockEntry => exact absurd rfl noEntry
  | _ => rfl

theorem step_blockRecordValue (begins : BeginsValue t) :
    step ⟨.value :: t :: ts, .blockRecordValue, later, handles⟩ =
      node ⟨t :: ts, .blockRecordValue, .blockRecordKey :: later, handles⟩ true true := by
  obtain ⟨noKey, noValue, noEnd⟩ := begins
  cases t with
  | key => exact absurd rfl noKey
  | value => exact absurd rfl noValue
  | blockEnd => exact absurd rfl noEnd
  | _ => rfl

/-! ## Values -/

/-- The tokens of a value are turned into its events, and the grammar goes on with what was
expected after the value. -/
def EmitsValue (d : Data) : Prop :=
  ∀ (bare : Bool) (rest : List Token), IsItem d ∨ (bare = true ∧ EndsEntries rest) →
    ∀ (expected next : Expected) (later : List Expected) (handles : List (List Char × List Char)),
      ∃ e es g, valueEvents d = e :: es ∧
        node ⟨valueTokens d ++ rest, expected, next :: later, handles⟩ true bare = some (e, g) ∧
        Emits g es ⟨rest, next, later, handles⟩

/-- What leads to a value says its events. -/
theorem EmitsValue.of_step {d : Data} {g : Grammar} {bare : Bool} (h : EmitsValue d)
    (fits : IsItem d ∨ (bare = true ∧ EndsEntries rest))
    (step : g.step = node ⟨valueTokens d ++ rest, expected, next :: later, handles⟩ true bare) :
    Emits g (valueEvents d) ⟨rest, next, later, handles⟩ := by
  obtain ⟨e, es, g', same, first, others⟩ := h bare rest fits expected next later handles
  rw [same]
  exact .step (step.trans first) others

/-- The entries of a list, by induction on them; the end of the list needs no token. -/
theorem emits_items {items : List Data} (isItem : ∀ d ∈ items, IsItem d)
    (each : ∀ d ∈ items, EmitsValue d) (ends : EndsEntries rest) :
    Emits ⟨itemTokens items ++ rest, .bareListEntry, next :: later, handles⟩
      (itemEvents items ++ [.listEnd]) ⟨rest, next, later, handles⟩ := by
  induction items with
  | nil =>
    obtain ⟨t, ts, rfl, noEntry⟩ := ends
    exact .step (step_bareListEntry_end noEntry) (.refl _)
  | cons d items ih =>
    have item := isItem d (by simp)
    obtain ⟨t, ts, same, begins, noEntry⟩ := valueTokens_eq_cons d
    have entry : step ⟨itemTokens (d :: items) ++ rest, .bareListEntry, next :: later, handles⟩ =
        node ⟨valueTokens d ++ (itemTokens items ++ rest), .bareListEntry,
          .bareListEntry :: next :: later, handles⟩ true false := by
      rw [itemTokens, List.append_assoc, List.cons_append, same]
      exact step_bareListEntry begins (noEntry item)
    rw [itemEvents, List.append_assoc]
    exact ((each d (by simp)).of_step (.inl item) entry).trans
      (ih (fun e mem => isItem e (List.mem_cons_of_mem d mem))
        fun e mem => each e (List.mem_cons_of_mem d mem))

/-- The value of a field behind its colon. -/
theorem emits_value {d : Data} (h : EmitsValue d) (ends : EndsEntries rest) :
    Emits ⟨.value :: (valueTokens d ++ rest), .blockRecordValue, later, handles⟩ (valueEvents d)
      ⟨rest, .blockRecordKey, later, handles⟩ := by
  obtain ⟨t, ts, same, begins, -⟩ := valueTokens_eq_cons d
  have value : step ⟨.value :: (valueTokens d ++ rest), .blockRecordValue, later, handles⟩ =
      node ⟨valueTokens d ++ rest, .blockRecordValue, .blockRecordKey :: later, handles⟩
        true true := by
    rw [same]
    exact step_blockRecordValue begins
  exact h.of_step (.inr ⟨rfl, ends⟩) value

/-- The fields of a record, by induction on them, and the end of its block. -/
theorem emits_fields {fields : List (String × Data)} (each : ∀ f ∈ fields, EmitsValue f.2) :
    Emits ⟨fieldTokens fields ++ .blockEnd :: rest, .blockRecordKey, next :: later, handles⟩
      (fieldEvents fields ++ [.recordEnd]) ⟨rest, next, later, handles⟩ := by
  induction fields with
  | nil => exact .step rfl (.refl _)
  | cons f fields ih =>
    obtain ⟨name, d⟩ := f
    have ends : EndsEntries (fieldTokens fields ++ .blockEnd :: rest) := by
      cases fields with
      | nil => exact ⟨.blockEnd, _, rfl, by simp⟩
      | cons f fields => exact ⟨.key, _, rfl, by simp⟩
    rw [fieldEvents, List.append_assoc, fieldTokens, List.append_assoc]
    exact .step rfl ((emits_value (each (name, d) (by simp)) ends).trans
      (ih fun g mem => each g (List.mem_cons_of_mem (name, d) mem)))

/-- The events of a value are said for its tokens. -/
theorem emitsValue {d : Data} (regular : Regular d) : EmitsValue d := by
  induction regular with
  | scalar h =>
    intro bare rest fits expected next later handles
    rw [valueTokens_eq_scalar h, valueEvents_eq_scalar h]
    exact ⟨_, [], _, rfl, rfl, .refl _⟩
  | @list items isItem regular ih =>
    intro bare rest fits expected next later handles
    cases items with
    | nil => exact ⟨_, _, _, rfl, rfl, .step rfl (.refl _)⟩
    | cons d items =>
      obtain ⟨rfl, ends⟩ := fits.resolve_left id
      exact ⟨_, _, _, rfl, rfl, emits_items isItem ih ends⟩
  | @record fields isName regular ih =>
    intro bare rest fits expected next later handles
    cases fields with
    | nil => exact ⟨_, _, _, rfl, rfl, .step rfl (.refl _)⟩
    | cons f fields =>
      have record : Emits ⟨fieldTokens (f :: fields) ++ .blockEnd :: rest, .blockRecordKey,
          next :: later, handles⟩ (fieldEvents (f :: fields) ++ [.recordEnd])
          ⟨rest, next, later, handles⟩ := emits_fields ih
      have opened : valueTokens (.record (f :: fields)) ++ rest =
          .blockRecordStart :: (fieldTokens (f :: fields) ++ .blockEnd :: rest) := by
        simp [valueTokens]
      rw [opened]
      refine ⟨_, _, _, rfl, rfl, ?_⟩
      -- the first step is that of any other key
      cases record with
      | step first others => exact .step first others

/-! ## Whole documents -/

/-- A document is turned into its events, and nothing is left. -/
theorem emits_document {f : String × Data} {fields : List (String × Data)}
    (regular : Regular (.record (f :: fields))) :
    ∃ g, g.step = none ∧ Emits { tokens := documentTokens (.record (f :: fields)) }
      (documentEvents (.record (f :: fields))) g := by
  have item : IsItem (.record (f :: fields)) := by simp [IsItem]
  have root (rest : List Token) : Emits { tokens := valueTokens (.record (f :: fields)) ++ rest }
      (.documentStart :: valueEvents (.record (f :: fields)))
      ⟨rest, .documentEnd, [], defaultHandles⟩ :=
    .step rfl ((emitsValue regular).of_step (.inl item) rfl)
  rw [documentTokens, documentEvents]
  exact ⟨_, rfl, (root _).trans (.step rfl (.step rfl (.refl _)))⟩

end Grammar

/-- The events of the document of a record. -/
theorem eventsOf_documentTokens {f : String × Data} {fields : List (String × Data)}
    (regular : Regular (.record (f :: fields))) :
    eventsOf (documentTokens (.record (f :: fields))) = documentEvents (.record (f :: fields)) := by
  obtain ⟨g, ended, emits⟩ := Grammar.emits_document regular
  have ended' (limit : Nat) : g.run limit = [] := by
    cases limit with
    | zero => rfl
    | succ limit => rw [Grammar.run, ended]
  have few : (documentEvents (.record (f :: fields))).length ≤
      4 * (documentTokens (.record (f :: fields))).length + 8 := by
    have events := length_valueEvents_le regular
    simp only [documentEvents, documentTokens, List.length_append, List.length_cons,
      List.length_nil]
    omega
  rw [eventsOf, ← Nat.add_sub_cancel' few, emits.run_eq, ended', List.append_nil]

end RoomAudio.Yaml
