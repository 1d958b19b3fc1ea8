import RoomAudio.Proofs.Yaml.Block
import RoomAudio.Proofs.Yaml.Ending
import RoomAudio.Proofs.Yaml.Written

/-!
# The tokens of written data

What is written for a value is found as the tokens of this value, whatever stands behind it. The
proof goes along the data. Between two lines of a block the scanner is always in the same state
but for the tokens that it has found.

## Main definitions

* `Yaml.valueTokens` — the tokens of a value.
* `Yaml.Scanner.leads_value` — a value is found behind the name of its field, or behind a hyphen.
* `Yaml.scan_record` — the tokens of a document.
-/

namespace RoomAudio.Yaml

mutual

/-- The tokens of a value. The entries of a list have no block of their own. -/
def valueTokens : Data → List Token
  | .null => [.scalar .plain "null".toList]
  | .bool b => [.scalar .plain (Data.boolName b).toList]
  | .int i => [.scalar .plain (Data.decimal i)]
  | .text s => [.scalar (styleOf s.toList) s.toList]
  | .list [] => [.flowListStart, .flowListEnd]
  | .list (item :: items) => itemTokens (item :: items)
  | .record [] => [.flowRecordStart, .flowRecordEnd]
  | .record (field :: fields) =>
    .blockRecordStart :: fieldTokens (field :: fields) ++ [.blockEnd]
termination_by structural d => d

def itemTokens : List Data → List Token
  | [] => []
  | item :: items => .blockEntry :: valueTokens item ++ itemTokens items
termination_by structural l => l

def fieldTokens : List (String × Data) → List Token
  | [] => []
  | (name, value) :: fields =>
    .key :: .scalar .plain name.toList :: .value :: valueTokens value ++ fieldTokens fields
termination_by structural l => l

end

theorem valueTokens_eq_scalar {d : Data} {style : Style} {l : List Char}
    (h : scalar? d = some (style, l)) : valueTokens d = [.scalar style l] := by
  cases d with
  | list items => cases h
  | record fields => cases h
  | _ =>
    cases h
    rfl

/-- If nothing is written behind a text, it has no line break at its end that would be lost. -/
def Closed (text : Option String) (next : List Char) : Prop :=
  next = [] → ∀ s ∈ text, styleOf s.toList = .literal → endsBreak s.toList = false

theorem closed_of_ne_nil {text : Option String} {next : List Char} (h : next ≠ []) :
    Closed text next := fun ended => absurd ended h

theorem startsGap_ahead (n : Nat) (d : Data) (next : List Char) :
    startsGap (ahead (writeFieldValue n d) next) = true ∧
      startsGap (ahead (writeItemValue n d) next) = true := by
  obtain ⟨⟨c, l, written, gap, some⟩, ⟨c', l', written', gap', some'⟩⟩ := writeValue_eq_cons n d
  rw [written, written', cons_ahead some, cons_ahead some']
  exact ⟨gap, gap'⟩

namespace Scanner

/-- The tokens of a value are found behind the name of its field. -/
def LeadsField (d : Data) : Prop :=
  ∀ ⦃n : Nat⦄ ⦃next : List Char⦄, Follows n next → Closed (lastText d) next →
    ∀ (outer : List Int) (found : List Token) (m : Mark), n < m.column →
    LeadsToLine (place ⟨ahead (writeFieldValue n d) next, m⟩ false none n outer found)
      next n outer ((valueTokens d).reverse ++ found)

/-- The tokens of a value are found behind the hyphen of its entry. -/
def LeadsItem (d : Data) : Prop :=
  ∀ ⦃n : Nat⦄ ⦃next : List Char⦄, Follows n next → Closed (lastText d) next →
    ∀ (outer : List Int) (found : List Token) (m : Mark), m.column = n + 1 →
    LeadsToLine (place ⟨ahead (writeItemValue n d) next, m⟩ true none n outer found)
      next n outer ((valueTokens d).reverse ++ found)

theorem leads_scalar {d : Data} {style : Style} {l : List Char} (h : scalar? d = some (style, l)) :
    LeadsField d ∧ LeadsItem d := by
  have same (n : Nat) : writeItemValue n d = writeFieldValue n d := by
    cases d with
    | list items => cases h
    | record fields => cases h
    | _ => rfl
  have scanned {n : Nat} {next : List Char} (follows : Follows n next)
      (closed : Closed (lastText d) next) (allowed : Bool) (outer : List Int) (found : List Token)
      (m : Mark) (deep : n < m.column) :
      LeadsToLine (place ⟨ahead (writeFieldValue n d) next, m⟩ allowed none n outer found)
        next n outer ((valueTokens d).reverse ++ found) := by
    rw [valueTokens_eq_scalar h]
    rcases scalar?_eq_some h with ⟨s, rfl, rfl, rfl⟩ | ⟨rfl, plain, ⟨init, c, rfl, -⟩, written⟩
    · rw [writeFieldValue, cons_ahead (writeText_ne_nil (n + indentStep) s)]
      exact leads_text follows (fun ended => closed ended s rfl) deep
    · rw [(written n).1, List.cons_append, cons_ahead (by simp)]
      exact leads_plain plain (by simp) follows (Int.le_refl _) (by omega)
  refine ⟨fun n next follows closed => scanned follows closed false,
    fun n next follows closed outer found m column => ?_⟩
  rw [same]
  exact scanned follows closed true outer found m (by omega)

/-- The entries of a list, each in a line of its own. -/
theorem leads_items {n : Nat} {next : List Char} {items : List Data} {outer : List Int}
    {found : List Token} {m : Mark} (each : ∀ d ∈ items, LeadsItem d) (follows : Follows n next)
    (closed : Closed (lastItemText items) next) (start : m.column = 0) :
    LeadsToLine (place ⟨ahead (writeItems n items) next, m⟩ true none n outer found)
      next n outer ((itemTokens items).reverse ++ found) := by
  induction items generalizing found m with
  | nil =>
    rw [writeItems, nil_ahead]
    exact ⟨m, start, .refl _⟩
  | cons d items ih =>
    obtain ⟨behind, some⟩ := follows_writeItems items follows
    rw [ahead_writeItems_cons n d some]
    obtain ⟨m₁, column, entry⟩ := leads_entry (startsGap_ahead n d _).2 start
    -- only the last item stands in front of `next` itself
    have closed₁ : Closed (lastText d) (ahead (writeItems n items) next) := by
      cases items with
      | nil =>
        rw [writeItems, nil_ahead]
        exact closed
      | cons e items => exact closed_of_ne_nil (some (by simp))
    have closed₂ : Closed (lastItemText items) next := by
      cases items with
      | nil => exact fun _ s mem => by cases mem
      | cons e items => exact closed
    obtain ⟨m₂, start₂, value⟩ := each d (by simp) behind closed₁ outer (.blockEntry :: found) m₁
      column
    obtain ⟨m₃, start₃, others⟩ := @ih ((valueTokens d).reverse ++ .blockEntry :: found) m₂
      (fun e mem => each e (List.mem_cons_of_mem d mem)) closed₂ start₂
    refine ⟨m₃, start₃, ?_⟩
    have all : (itemTokens (d :: items)).reverse ++ found =
        (itemTokens items).reverse ++ ((valueTokens d).reverse ++ .blockEntry :: found) := by
      simp [itemTokens]
    rw [all]
    exact entry.trans (value.trans others)

/-- The value of a field, and further fields in lines of their own. -/
theorem leads_fields {n : Nat} {next : List Char} {name : String} {d : Data}
    {fields : List (String × Data)} {outer : List Int} {found : List Token} {m : Mark}
    (isName : ∀ f ∈ fields, IsName f.1) (each : ∀ f ∈ (name, d) :: fields, LeadsField f.2)
    (follows : Follows n next) (closed : Closed (lastFieldText ((name, d) :: fields)) next)
    (deep : n < m.column) :
    LeadsToLine (place ⟨ahead (writeFieldValue n d) (ahead (writeFields n fields) next), m⟩
      false none n outer found)
      next n outer ((valueTokens d ++ fieldTokens fields).reverse ++ found) := by
  induction fields generalizing name d found m with
  | nil =>
    rw [writeFields, nil_ahead, fieldTokens, List.append_nil]
    exact each (name, d) (by simp) follows closed outer found m deep
  | cons f fields ih =>
    obtain ⟨name', e⟩ := f
    obtain ⟨behind, some⟩ := follows_writeFields isName follows
    have isName' (g : String × Data) (mem : g ∈ fields) : IsName g.1 :=
      isName g (List.mem_cons_of_mem (name', e) mem)
    obtain ⟨m₁, start₁, value⟩ := each (name, d) (by simp) behind
      (closed_of_ne_nil (some (by simp))) outer found m deep
    rw [writeFields, ahead_field _ n name' e (follows_writeFields isName' follows).2] at value ⊢
    have column : (m₁.advance n).column = n := by simp [start₁]
    obtain ⟨m₂, deep₂, key⟩ := @leads_key n outer ((valueTokens d).reverse ++ found) m₁ n name' _
      (isName (name', e) (by simp)) (startsGap_ahead n e (ahead (writeFields n fields) next)).1
      (by omega)
    -- the key lies in the column of the block, so that it opens none
    rw [if_neg (by rw [column]; exact Int.lt_irrefl n)] at key
    obtain ⟨m₃, start₃, others⟩ := @ih name' e (.value :: .scalar .plain name'.toList :: .key ::
        ((valueTokens d).reverse ++ found)) m₂ isName'
      (fun g mem => each g (List.mem_cons_of_mem (name, d) mem)) closed (column ▸ deep₂)
    refine ⟨m₃, start₃, ?_⟩
    have all : (valueTokens d ++ fieldTokens ((name', e) :: fields)).reverse ++ found =
        (valueTokens e ++ fieldTokens fields).reverse ++ .value ::
          .scalar .plain name'.toList :: .key :: ((valueTokens d).reverse ++ found) := by
      simp [fieldTokens]
    rw [all]
    exact value.trans (key.trans others)

/-- A record whose first field lies in column `k` opens a block there. -/
theorem leads_record {indent : Int} {k n : Nat} {next : List Char} {name : String} {d : Data}
    {fields : List (String × Data)} {outer : List Int} {found : List Token} {m : Mark}
    (isName : ∀ f ∈ (name, d) :: fields, IsName f.1)
    (each : ∀ f ∈ (name, d) :: fields, LeadsField f.2) (follows : Follows k next)
    (closed : Closed (lastFieldText ((name, d) :: fields)) next)
    (column : (m.advance n).column = k) (deep : indent < k) :
    LeadsToLine (place ⟨indentation n ++ (name.toList ++
        ':' :: ahead (writeFieldValue k d) (ahead (writeFields k fields) next)), m⟩
      true none indent outer found)
      next k (indent :: outer)
      ((.blockRecordStart :: fieldTokens ((name, d) :: fields)).reverse ++ found) := by
  obtain ⟨m₁, deep₁, key⟩ := @leads_key indent outer found m n name _ (isName (name, d) (by simp))
    (startsGap_ahead k d (ahead (writeFields k fields) next)).1 (by rw [column]; omega)
  rw [column] at key deep₁
  rw [if_pos deep] at key
  obtain ⟨m₂, start, record⟩ := @leads_fields k next name d fields (indent :: outer)
    (.value :: .scalar .plain name.toList :: .key :: .blockRecordStart :: found) m₁
    (fun g mem => isName g (List.mem_cons_of_mem (name, d) mem)) each follows closed deep₁
  refine ⟨m₂, start, ?_⟩
  have all : (.blockRecordStart :: fieldTokens ((name, d) :: fields)).reverse ++ found =
      (valueTokens d ++ fieldTokens fields).reverse ++ .value ::
        .scalar .plain name.toList :: .key :: .blockRecordStart :: found := by
    simp [fieldTokens]
  rw [all]
  exact key.trans record

/-- A line break, and what is written in the lines behind it. -/
theorem leads_newline {n k : Nat} {outer : List Int} {found : List Token} {m : Mark}
    {written next : List Char} (follows : Follows k (ahead written next))
    (some : ahead written next ≠ []) :
    LeadsToLine (place ⟨ahead ('\n' :: written) next, m⟩ false none n outer found)
      (ahead written next) n outer found := by
  have lines : ahead ('\n' :: written) next = ahead ['\n'] (ahead written next) :=
    @ahead_append ['\n'] written next fun _ => some
  rw [lines]
  exact leads_of_newline follows (idle_none m.line)

/-- A record deeper than the block around it is a block of its own. -/
theorem leads_block {n k : Nat} {next : List Char} {name : String} {d : Data}
    {fields : List (String × Data)} {outer : List Int} {found : List Token} {m : Mark}
    (isName : ∀ f ∈ (name, d) :: fields, IsName f.1)
    (each : ∀ f ∈ (name, d) :: fields, LeadsField f.2) (follows : Follows n next)
    (closed : Closed (lastFieldText ((name, d) :: fields)) next)
    (column : (m.advance k).column = n + indentStep) :
    LeadsToLine (place ⟨ahead (indentation k ++ name.toList ++
        ':' :: writeFieldValue (n + indentStep) d ++ writeFields (n + indentStep) fields) next, m⟩
      true none n outer found)
      next n outer ((valueTokens (.record ((name, d) :: fields))).reverse ++ found) := by
  have deep : (n : Int) < (n + indentStep : Nat) := by
    rw [indentStep]
    omega
  have inner : Follows (n + indentStep) next := follows.mono (Nat.le_add_right n indentStep)
  obtain ⟨m', start, record⟩ := @leads_record n (n + indentStep) k next name d fields outer found m
    isName each inner closed column deep
  rw [ahead_field _ _ name d (follows_writeFields
    (fun f mem => isName f (List.mem_cons_of_mem (name, d) mem)) inner).2]
  have all : (valueTokens (.record ((name, d) :: fields))).reverse ++ found = .blockEnd ::
      ((.blockRecordStart :: fieldTokens ((name, d) :: fields)).reverse ++ found) := by
    simp [valueTokens]
  rw [all]
  exact ⟨m', start, record.trans (leads_of_shallow follows deep start)⟩

/-- What is written for a value is found as its tokens. -/
theorem leads_value {d : Data} (regular : Regular d) :
    LeadsField d ∧ (IsItem d → LeadsItem d) := by
  induction regular with
  | scalar h => exact ⟨(leads_scalar h).1, fun _ => (leads_scalar h).2⟩
  | @list items isItem regular ih =>
    refine ⟨fun n next follows closed outer found m deep => ?_, fun noItem => absurd noItem id⟩
    cases items with
    | nil =>
      have written : writeFieldValue n (.list []) = [' ', '[', ']'] ++ ['\n'] := rfl
      rw [written, concat_ahead]
      exact leads_brackets .list follows deep
    | cons d items =>
      obtain ⟨behind, some⟩ := follows_writeItems (d :: items) follows
      obtain ⟨m₁, start, line⟩ := @leads_newline n n outer found m _ next behind (some (by simp))
      obtain ⟨m₂, start₂, list⟩ := @leads_items n next (d :: items) outer found m₁
        (fun e mem => (ih e mem).2 (isItem e mem)) follows closed start
      exact ⟨m₂, start₂, line.trans list⟩
  | @record fields isName regular ih =>
    cases fields with
    | nil =>
      refine ⟨fun n next follows closed outer found m deep => ?_, fun noItem => absurd rfl noItem⟩
      have written : writeFieldValue n (.record []) = [' ', '\x7b', '\x7d'] ++ ['\n'] := rfl
      rw [written, concat_ahead]
      exact leads_brackets .record follows deep
    | cons f fields =>
      obtain ⟨name, d⟩ := f
      have each (g : String × Data) (mem : g ∈ (name, d) :: fields) : LeadsField g.2 := (ih g mem).1
      constructor
      · intro n next follows closed outer found m deep
        obtain ⟨behind, some⟩ := follows_writeFields isName
          (follows.mono (Nat.le_add_right n indentStep))
        obtain ⟨m₁, start, line⟩ := @leads_newline n _ outer found m _ next behind (some (by simp))
        obtain ⟨m₂, start₂, block⟩ := @leads_block n (n + indentStep) next name d fields outer found
          m₁ isName each follows closed (by rw [Mark.column_advance, start, Nat.zero_add])
        exact ⟨m₂, start₂, line.trans block⟩
      · intro _ n next follows closed outer found m column
        exact leads_block (k := 1) isName each follows closed
          (by rw [Mark.column_advance, column, indentStep])

end Scanner

/-! ## Whole documents -/

open Scanner

def documentTokens (d : Data) : List Token := valueTokens d ++ [.streamEnd]

/-- When the scanner gets to the end of the text, it has found all tokens. -/
theorem scan_of_leads {text : List Char} {m : Mark} {allowed : Bool} {indent : Int}
    {outer : List Int} {found : List Token} (printable : text.all isPrintable = true)
    (leads : Leads (place ⟨text, {}⟩ true none (-1) [] [])
      (place ⟨[], m⟩ allowed none indent outer found)) :
    scan text = ((Token.streamEnd :: closing indent outer found).reverse, true) := by
  have permitted : text.all isPermitted = true := List.all_eq_true.mpr fun c mem =>
    isPermitted_of_isPrintable (List.all_eq_true.mp printable c mem)
  obtain ⟨n, shorter, runs⟩ := leads
  have few : n ≤ text.length := Nat.le_trans (Nat.le_trans (Nat.le_add_right n _) shorter)
    (visible_le text)
  -- the steps on the way are paid for by the characters of the text
  have enough : text.length + 2 = n + (text.length + 1 - n) + 1 := by omega
  rw [scan, if_pos permitted, enough]
  exact runs _ _ (run_over (idle_none 0))

theorem closing_root (found : List Token) :
    closing 0 [-1] found = .blockEnd :: found ∧ closing (-1) [] found = found := by
  rw [closing, closing, unroll_place_of_lt (by decide), unroll_place_of_le (Int.le_refl _),
    unroll_place_of_le (Int.le_refl _)]
  exact ⟨rfl, rfl⟩

theorem all_isPrintable_ahead {written next : List Char} (h : written.all isPrintable = true)
    (h' : next.all isPrintable = true) : (ahead written next).all isPrintable = true := by
  by_cases ended : next = []
  · rw [ended, ahead_nil, List.all_eq_true]
    exact fun c mem => List.all_eq_true.mp h c ((List.dropLast_sublist written).subset mem)
  · rw [ahead_of_ne_nil ended, List.all_append, h, h']
    rfl

/-- The tokens of what is left of the document of a record. -/
theorem scan_record {name : String} {d : Data} {fields : List (String × Data)}
    (regular : Regular (.record ((name, d) :: fields)))
    (kept : ∀ s ∈ lastText (.record ((name, d) :: fields)), isClipped s = false) :
    scan (writeFields 0 ((name, d) :: fields)).dropLast =
      (documentTokens (.record ((name, d) :: fields)), true) := by
  obtain ⟨isName, regular⟩ := regular.of_record
  have closed : Closed (lastText (.record ((name, d) :: fields))) [] :=
    fun _ => endsBreak_of_kept kept
  have printable := all_isPrintable_writeFields isName
    (fun f mem n => (all_isPrintable_writeValue (regular f mem) n).1) 0
  have found : LeadsToLine (place ⟨ahead (writeFields 0 ((name, d) :: fields)) [], {}⟩
      true none (-1) [] [])
      [] 0 [-1] ((.blockRecordStart :: fieldTokens ((name, d) :: fields)).reverse ++ []) := by
    rw [writeFields, ahead_field _ _ name d (follows_writeFields
      (fun f mem => isName f (List.mem_cons_of_mem (name, d) mem)) .ended).2]
    exact leads_record isName (fun f mem => (leads_value (regular f mem)).1) .ended closed rfl
      (by decide)
  obtain ⟨m, -, record⟩ := found
  rw [documentTokens, valueTokens, ← ahead_nil,
    scan_of_leads (all_isPrintable_ahead printable rfl) record, (closing_root _).1]
  simp

end RoomAudio.Yaml
