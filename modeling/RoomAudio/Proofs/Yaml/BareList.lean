import RoomAudio.Proofs.Yaml.Entries

/-!
# Lists without a block of their own

The entries of a list that is the value of a key may stand in the column of the key, and the list
then has no block of its own. The grammar reads the same events when it has one, if the record ends
with the list.

## Main definitions

* `Yaml.Grammar.Agree` — two states of the grammar from which the same events are read.
* `Yaml.Grammar.agree_list` — inside of a list with or without a block of its own.
* `Yaml.BareList` — a record with such a list.
* `Yaml.BareList.eventsOf_boxed` — the events of a document with such a record.
-/

namespace RoomAudio.Yaml

variable {l after Z : List Token} {handles : List (List Char × List Char)} {e : Expected}
  {later : List Expected} {ev : Event} {g g' h : Grammar}

namespace Grammar

/-! ## Runs -/

/-- If the first state leads to the end of the text in `n` steps, the second one says the same. -/
def Agree (n : Nat) (g h : Grammar) : Prop := Event.streamEnd ∈ g.run n → h.run n = g.run n

theorem Agree.zero : Agree 0 g h := by
  intro ends
  cases ends

theorem Agree.of_step {n : Nat} (next : ∀ ev g', g.step = some (ev, g') →
    ev ≠ .streamEnd ∧ ∃ h', h.step = some (ev, h') ∧ Agree n g' h') : Agree (n + 1) g h := by
  intro ends
  rw [run] at ends
  cases found : g.step with
  | none =>
    rw [found] at ends
    cases ends
  | some p =>
    obtain ⟨ev, g'⟩ := p
    obtain ⟨going, h', found', agree⟩ := next ev g' found
    rw [found] at ends
    rw [run, run, found, found']
    have later := (List.mem_cons.mp ends).resolve_left (Ne.symm going)
    exact congrArg (ev :: ·) (agree later)

/-- What is expected inside of an entry, in front of what is left of the entries. -/
structure Nested (l : List Token) (states : List Expected) : Prop where
  level : areEntries (Expected.depths states) l = true
  proper : Proper l states

/-- A list without a block of its own, with what is expected inside of one of its entries. -/
def inBare (after l : List Token) (states : List Expected) : Grammar :=
  stacked (l ++ .blockEnd :: after) defaultHandles
    (states ++ [.bareListEntry, .blockRecordKey, .documentEnd])

/-- The same list with a block of its own. -/
def inBlock (after l : List Token) (states : List Expected) : Grammar :=
  stacked (l ++ .blockEnd :: .blockEnd :: after) defaultHandles
    (states ++ [.blockListEntry, .blockRecordKey, .documentEnd])

theorem Nested.ne_streamEnd {states : List Expected} (nested : Nested l states)
    (found : g.step = some (ev, inBare after l states)) : ev ≠ .streamEnd := by
  rintro rfl
  have nothing := ((careful_step g .streamEnd _ found).2 rfl).2
  cases states with
  | nil => cases nothing
  | cons e states =>
    obtain rfl : e = .nothing := nothing
    exact nested.proper.ready _ rfl

/-- Inside of an entry. -/
theorem agree_inside {n : Nat} {states : List Expected} (nested : Nested l (e :: states))
    (ih : ∀ l states, Nested l states → Agree n (inBare after l states) (inBlock after l states)) :
    Agree (n + 1) (inBare after l (e :: states)) (inBlock after l (e :: states)) := by
  refine .of_step fun ev g' found => ?_
  obtain ⟨level, proper⟩ := nested
  have level : areEntries (Expected.depths states + e.depth) l = true := by
    simpa [Nat.add_comm] using level
  obtain ⟨l', inner, acts, level', proper'⟩ := exists_step level (proper.ready e rfl) found
  have nested' : Nested l' (inner ++ states) := by
    refine ⟨by simpa [Nat.add_comm] using level', ?_, ?_⟩
    · rcases inner with _ | ⟨i, inner⟩
      · intro i mem
        exact proper.waits i (List.mem_of_mem_head? mem) l'
      · exact proper'.ready
    · rcases inner with _ | ⟨i, inner⟩
      · exact fun i mem => proper.waits i (List.mem_of_mem_tail mem)
      · intro i mem
        rcases List.mem_append.mp mem with mem | mem
        · exact proper'.waits i mem
        · exact proper.waits i mem
  have bare := acts after (states ++ [.bareListEntry, .blockRecordKey, .documentEnd])
  have block := acts (.blockEnd :: after)
    (states ++ [.blockListEntry, .blockRecordKey, .documentEnd])
  rw [← List.append_assoc] at bare block
  obtain rfl : g' = inBare after l' (inner ++ states) :=
    (Prod.mk.inj (Option.some.inj (found.symm.trans bare))).2
  exact ⟨nested'.ne_streamEnd found, _, block, ih _ _ nested'⟩

/-- An entry begins. -/
theorem agree_entry {n : Nat} (level : areEntries 0 l = true)
    (ih : ∀ l states, Nested l states → Agree n (inBare after l states) (inBlock after l states))
    (bare : (inBare after (.blockEntry :: l) []).step =
      node ⟨l ++ .blockEnd :: after, .bareListEntry,
        [.bareListEntry, .blockRecordKey, .documentEnd], defaultHandles⟩ true false)
    (block : h.step = node ⟨l ++ .blockEnd :: .blockEnd :: after, e,
      [.blockListEntry, .blockRecordKey, .documentEnd], defaultHandles⟩ true false) :
    Agree (n + 1) (inBare after (.blockEntry :: l) []) h := by
  refine .of_step fun ev g' found => ?_
  have begun := found
  rw [bare] at begun
  obtain ⟨l', states, acts, same, inside⟩ := acts_node begun
  obtain rfl : g' = inBare after l' states :=
    (Prod.mk.inj (Option.some.inj (begun.symm.trans (acts _ _ _)))).2
  have nested : Nested l' states := by
    cases inside with
    | finished => exact ⟨(same 0).symm.trans level, by simp, by simp⟩
    | begun depth ready =>
      refine ⟨?_, by simpa using ready, by simp⟩
      simpa [depth] using (same 0).symm.trans level
  exact ⟨nested.ne_streamEnd found, _, block.trans (acts _ _ _), ih _ _ nested⟩

/-- In front of an entry or the end of the list. -/
theorem agree_between {n : Nat} (level : areEntries 0 l = true)
    (ih : ∀ l states, Nested l states → Agree n (inBare after l states) (inBlock after l states))
    (block : h.step = blockListEntry ⟨l ++ .blockEnd :: .blockEnd :: after, e,
      [.blockRecordKey, .documentEnd], defaultHandles⟩) : Agree (n + 1) (inBare after l []) h := by
  have leftOut (l : List Token) (level : areEntries 0 l = true) :
      Agree n (inBare after l []) (inBlock after l []) := ih l [] ⟨level, by simp, by simp⟩
  rcases l with _ | ⟨t, l⟩
  · -- The list ends, and from then on the states are the same.
    refine .of_step fun ev g' found => ?_
    cases found
    exact ⟨by simp, _, block, fun _ => rfl⟩
  cases t with
  | blockEntry =>
    change areEntries 0 l = true at level
    rcases l with _ | ⟨t, l⟩
    · refine .of_step fun ev g' found => ?_
      cases found
      exact ⟨by simp [emptyScalar], _, block, leftOut [] level⟩
    cases t with
    | blockEntry =>
      refine .of_step fun ev g' found => ?_
      cases found
      exact ⟨by simp [emptyScalar], _, block, leftOut _ level⟩
    | key | value | blockEnd => simp [areEntries] at level
    | _ => exact agree_entry level ih rfl block
  | key | value | blockEnd => simp [areEntries] at level
  | _ =>
    -- The list ends, and the token is no key of the record around it.
    intro ends
    rw [show run (n + 1) (inBare after (_ :: l) []) = [.listEnd] by cases n <;> rfl] at ends
    cases ends with
    | tail _ ends => cases ends

/-- The events inside of a list do not depend on whether it has a block of its own. -/
theorem agree_list (n : Nat) (l : List Token) (states : List Expected) (nested : Nested l states) :
    Agree n (inBare after l states) (inBlock after l states) := by
  induction n generalizing l states with
  | zero => exact .zero
  | succ n ih =>
    cases states with
    | nil => exact agree_between (by simpa using nested.level) ih rfl
    | cons e states => exact agree_inside nested ih

/-! ## The record around the list -/

/-- In front of a value of a record stand its properties. -/
theorem blockRecordNode_eq {m r : List Token} {t : Token} (next : Expected)
    (behind : afterProperties m = t :: r)
    (begins : t ≠ .key ∧ t ≠ .value ∧ t ≠ .blockEnd ∧ ∀ name, t ≠ .alias name) :
    blockRecordNode ⟨m, e, later, handles⟩ next =
      (propertiesOf handles m).bind fun p =>
        value ⟨t :: r, e, next :: later, handles⟩ p true true := by
  obtain ⟨a, rest, rfl, first⟩ : ∃ a rest, m = a :: rest ∧ (a = t ∨ a.isProperty = true) := by
    fun_cases afterProperties m <;> grind [afterProperties, Token.isProperty]
  have other (name : List Char) : a ≠ .alias name := by
    rintro rfl
    grind [Token.isProperty]
  have same : blockRecordNode ⟨a :: rest, e, later, handles⟩ next =
      node ⟨a :: rest, e, next :: later, handles⟩ true true := by
    cases a with
    | key | value | blockEnd => grind [Token.isProperty]
    | _ => rfl
  have parts : node ⟨a :: rest ++ [], e, next :: later, handles⟩ true true = _ :=
    node_eq (by simp) (by simpa using other)
  rw [same]
  simpa [behind] using parts

section Record

variable {rest r : List Token} {t : Token} (plain : ∀ t ∈ Z.head?, t.isProperty = false)
  (behind : afterProperties rest ++ Z = t :: r)
  (begins : t ≠ .key ∧ t ≠ .value ∧ t ≠ .blockEnd ∧ ∀ name, t ≠ .alias name)
include plain behind begins

theorem step_key :
    step ⟨.blockRecordStart :: .key :: (rest ++ Z), .blockRecordFirst, later, handles⟩ =
      (propertiesOf handles rest).bind fun p =>
        value ⟨t :: r, .blockRecordFirst, .blockRecordValue :: later, handles⟩ p true true := by
  rw [← propertiesOf_append plain rest]
  rw [← afterProperties_append plain] at behind
  exact blockRecordNode_eq .blockRecordValue behind begins

theorem step_value :
    step ⟨.value :: (rest ++ Z), .blockRecordValue, later, handles⟩ =
      (propertiesOf handles rest).bind fun p =>
        value ⟨t :: r, .blockRecordValue, .blockRecordKey :: later, handles⟩ p true true := by
  rw [← propertiesOf_append plain rest]
  rw [← afterProperties_append plain] at behind
  exact blockRecordNode_eq .blockRecordKey behind begins

end Record

/-- The beginning of a record, up to the place of the value of its first key. -/
def beginsRecord : List Token → Bool
  | .blockRecordStart :: .key :: rest =>
    match afterProperties rest with
    | .scalar _ _ :: .value :: rest => (afterProperties rest).isEmpty
    | _ => false
  | _ => false

theorem beginsRecord_iff {front : List Token} : beginsRecord front = true ↔
    ∃ rest style text rest', front = .blockRecordStart :: .key :: rest ∧
      afterProperties rest = .scalar style text :: .value :: rest' ∧
      afterProperties rest' = [] := by
  fun_cases beginsRecord front <;> grind

/-- No scalar stands where the value of the first key is expected. -/
theorem not_scalar_of_beginsRecord {front : List Token} (begins : beginsRecord front = true)
    {style : Style} {text : List Char} : front.getLast? ≠ some (.scalar style text) := by
  obtain ⟨rest, _, _, rest', rfl, key, props⟩ := beginsRecord_iff.mp begins
  obtain ⟨ps, same, -⟩ := exists_properties rest
  obtain ⟨ps', same', plain⟩ := exists_properties rest'
  rw [same, key, same', props]
  intro last
  have mem : Token.scalar style text ∈ ps' := by grind
  cases plain _ mem

/-- The value of the first key is a list, whose entries stand behind its properties. -/
theorem agree_value {n : Nat} {rest : List Token} (props : afterProperties rest = [])
    (entries : areEntries 0 (.blockEntry :: l) = true) :
    Agree n
      ⟨.value :: (rest ++ .blockEntry :: (l ++ .blockEnd :: after)), .blockRecordValue,
        [.documentEnd], defaultHandles⟩
      ⟨.value :: (rest ++ .blockListStart :: .blockEntry :: (l ++ .blockEnd :: .blockEnd :: after)),
        .blockRecordValue, [.documentEnd], defaultHandles⟩ := by
  rcases n with _ | n
  · exact .zero
  refine .of_step fun ev g' found => ?_
  rw [step_value (by simp [Token.isProperty]) (by rw [props]; rfl) (by simp)] at found
  obtain ⟨p, properties, found⟩ := Option.bind_eq_some_iff.mp found
  cases found
  rw [step_value (by simp [Token.isProperty]) (by rw [props]; rfl) (by simp), properties]
  refine ⟨by simp, _, rfl, ?_⟩
  rcases n with _ | n
  · exact .zero
  · exact agree_between entries (agree_list n) rfl

/-- The first key of the record. -/
theorem agree_key {n : Nat} {rest rest' : List Token} {style : Style} {text : List Char}
    {Z Z' : List Token} (key : afterProperties rest = .scalar style text :: .value :: rest')
    (plain : ∀ t ∈ Z.head?, t.isProperty = false) (plain' : ∀ t ∈ Z'.head?, t.isProperty = false)
    (next : Agree n ⟨.value :: (rest' ++ Z), .blockRecordValue, [.documentEnd], defaultHandles⟩
      ⟨.value :: (rest' ++ Z'), .blockRecordValue, [.documentEnd], defaultHandles⟩) :
    Agree (n + 1)
      ⟨.blockRecordStart :: .key :: (rest ++ Z), .blockRecordFirst, [.documentEnd], defaultHandles⟩
      ⟨.blockRecordStart :: .key :: (rest ++ Z'), .blockRecordFirst, [.documentEnd],
        defaultHandles⟩ := by
  refine .of_step fun ev g' found => ?_
  rw [step_key plain (by rw [key]; rfl) (by simp)] at found
  obtain ⟨p, properties, found⟩ := Option.bind_eq_some_iff.mp found
  cases found
  rw [step_key plain' (by rw [key]; rfl) (by simp), properties]
  exact ⟨by simp, _, rfl, next⟩

/-- A record whose only value is a list. -/
theorem agree_record {n : Nat} {front : List Token} (begins : beginsRecord front = true)
    (entries : areEntries 0 (.blockEntry :: l) = true) :
    Agree n { tokens := front ++ .blockEntry :: (l ++ .blockEnd :: after) }
      { tokens :=
          front ++ .blockListStart :: .blockEntry :: (l ++ .blockEnd :: .blockEnd :: after) } := by
  obtain ⟨rest, style, text, rest', rfl, key, props⟩ := beginsRecord_iff.mp begins
  rcases n with _ | _ | _ | n
  · exact .zero
  · refine .of_step fun ev g' found => ?_
    cases found
    exact ⟨by simp, _, rfl, .zero⟩
  · refine .of_step fun ev g' found => ?_
    cases found
    refine ⟨by simp, _, rfl, .of_step fun ev g' found => ?_⟩
    cases found
    exact ⟨by simp, _, rfl, .zero⟩
  · refine .of_step fun ev g' found => ?_
    cases found
    refine ⟨by simp, _, rfl, .of_step fun ev g' found => ?_⟩
    cases found
    exact ⟨by simp, _, rfl, agree_key key (by simp [Token.isProperty]) (by simp [Token.isProperty])
      (agree_value props entries)⟩

end Grammar

/-- The tokens of a record with one key, the value of which is a list without a block of its own. -/
structure BareList where
  /-- The tokens in front of the list. -/
  front : List Token
  /-- The tokens of the entries. -/
  entries : List Token
  begins : Grammar.beginsRecord front = true
  first : entries.head? = some .blockEntry
  level : areEntries 0 entries = true

namespace BareList

def tokens (b : BareList) : List Token := b.front ++ (b.entries ++ [.blockEnd])

/-- The tokens of the record if the list has a block of its own. -/
def boxed (b : BareList) : List Token :=
  b.front ++ .blockListStart :: (b.entries ++ [.blockEnd, .blockEnd])

/-- Whether or not the list has a block of its own, the document has the same events. -/
theorem eventsOf_boxed (b : BareList) (ends : Event.streamEnd ∈ eventsOf (b.tokens ++ after)) :
    eventsOf (b.boxed ++ after) = eventsOf (b.tokens ++ after) := by
  obtain ⟨front, entries, begins, first, level⟩ := b
  obtain ⟨l, rfl⟩ := List.head?_eq_some_iff.mp first
  have longer := Grammar.run_add ends 8
  simp only [tokens, boxed, List.append_assoc, List.cons_append, List.nil_append] at ends longer ⊢
  rw [eventsOf, eventsOf, ← longer]
  rw [eventsOf, ← longer] at ends
  refine Eq.trans (congrArg (Grammar.run · _) ?_) (Grammar.agree_record begins level ends)
  simp
  omega

end BareList

end RoomAudio.Yaml
