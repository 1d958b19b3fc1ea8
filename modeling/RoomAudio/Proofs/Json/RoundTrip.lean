import RoomAudio.Json.Format
import RoomAudio.Json.Printer
import RoomAudio.Proofs.Json.Number
import RoomAudio.Proofs.Json.Quoted

/-!
# Reading back indented JSON

Plain data that was written as indented JSON is read as the tree of the same shape. The proof goes
along the data: what is written for a value is consumed and what stands behind it is left.

## Main definitions

* `Json.Tree.ofData` — plain data as a tree.
* `Json.Tree.readValue_prettyChars` — reading consumes what was written for a value.
* `Json.decode_pretty` — whole texts are read back.
-/

namespace RoomAudio.Json

namespace Tree

mutual

def ofData : Data → Tree
  | .null => .null
  | .bool b => .bool b
  | .int i => .number (.ofInt i)
  | .text s => .text (some s)
  | .list items => .list (ofItems items)
  | .record fields => .record (ofFields fields)
termination_by structural d => d

def ofItems : List Data → List Tree
  | [] => []
  | item :: items => ofData item :: ofItems items
termination_by structural l => l

def ofFields : List (String × Data) → List (Option String × Tree)
  | [] => []
  | (name, value) :: fields => (some name, ofData value) :: ofFields fields
termination_by structural l => l

end

theorem ofItems_eq_map (items : List Data) : ofItems items = items.map ofData := by
  induction items with
  | nil => rfl
  | cons item items ih => rw [ofItems, ih, List.map_cons]

theorem ofFields_eq_map (fields : List (String × Data)) :
    ofFields fields = fields.map fun field => (some field.1, ofData field.2) := by
  induction fields with
  | nil => rfl
  | cons field fields ih => rw [ofFields, ih, List.map_cons]

/-! ## Blank characters -/

theorem skipSpace_cons {c : Char} (l : List Char) (h : isSpace c = false) :
    skipSpace (c :: l) = c :: l :=
  List.dropWhile_cons_of_neg (by simp [h])

/-- Indentation is passed. -/
theorem skipSpace_newline (depth : Nat) (l : List Char) :
    skipSpace (newline depth ++ l) = skipSpace l := by
  have spaces : ∀ c ∈ newline depth, isSpace c = true := by
    intro c mem
    rcases List.mem_cons.mp mem with rfl | mem
    · rfl
    · rw [List.eq_of_mem_replicate mem]
      rfl
  exact List.dropWhile_append_of_pos spaces

/-- Line breaks in front of a value do not matter. -/
theorem readValue_newline (size depth : Nat) (l : List Char) :
    readValue size (newline depth ++ l) = readValue size l := by
  cases size with
  | zero => rw [readValue, readValue]
  | succ size => rw [readValue, readValue, skipSpace_newline]

theorem readValue_space (size : Nat) (l : List Char) :
    readValue size (' ' :: l) = readValue size l := by
  cases size with
  | zero => rw [readValue, readValue]
  | succ size => rw [readValue, readValue, skipSpace, List.dropWhile_cons_of_pos rfl, skipSpace]

theorem readItems_newline (size depth : Nat) (l : List Char) :
    readItems size (newline depth ++ l) = readItems size l := by
  cases size with
  | zero => rw [readItems, readItems]
  | succ size => rw [readItems, readItems, readValue_newline]

theorem readMembers_newline (size depth : Nat) (l : List Char) :
    readMembers size (newline depth ++ l) = readMembers size l := by
  cases size with
  | zero => rw [readMembers, readMembers]
  | succ size => rw [readMembers, readMembers, skipSpace_newline]

/-! ## The front of what is written -/

def BeginsNumber (c : Char) : Prop := c = '-' ∨ c.isDigit = true

theorem decimal_eq_cons (i : Int) : ∃ c l, Data.decimal i = c :: l ∧ BeginsNumber c := by
  cases i with
  | ofNat n =>
    cases digits : Nat.toDigits 10 n with
    | nil => exact absurd digits Nat.toDigits_ne_nil
    | cons c l => exact ⟨c, l, digits, .inr (isDigit_of_mem_digits (by rw [digits]; simp))⟩
  | negSucc n => exact ⟨'-', _, rfl, .inl rfl⟩

/-- A value begins neither with a blank character nor with the end of a list. -/
theorem prettyChars_eq_cons (depth : Nat) (d : Data) :
    ∃ c l, prettyChars depth d = c :: l ∧ isSpace c = false ∧ c ≠ ']' := by
  cases d with
  | null => exact ⟨'n', _, rfl, rfl, by decide⟩
  | bool b =>
    cases b with
    | true => exact ⟨'t', _, rfl, rfl, by decide⟩
    | false => exact ⟨'f', _, rfl, rfl, by decide⟩
  | int i =>
    obtain ⟨c, l, written, begins⟩ := decimal_eq_cons i
    refine ⟨c, l, written, ?_, ?_⟩
    · rcases begins with rfl | digit
      · rfl
      · simp only [isSpace, Bool.or_eq_false_iff, beq_eq_false_iff_ne]
        refine ⟨⟨⟨?_, ?_⟩, ?_⟩, ?_⟩ <;> rintro rfl <;> cases digit
    · rintro rfl
      rcases begins with minus | digit
      · cases minus
      · cases digit
  | text s => exact ⟨'"', _, rfl, rfl, by decide⟩
  | list items =>
    cases items with
    | nil => exact ⟨'[', _, rfl, rfl, by decide⟩
    | cons item items => exact ⟨'[', _, rfl, rfl, by decide⟩
  | record fields =>
    cases fields with
    | nil => exact ⟨'{', _, rfl, rfl, by decide⟩
    | cons field fields => exact ⟨'{', _, rfl, rfl, by decide⟩

/-- Behind an item stands a comma or a line break. -/
theorem closes_prettyItems (depth : Nat) (items : List Data) (rest : List Char) :
    Closes (prettyItems depth items ++ rest) := by
  intro c first
  cases items <;> cases first <;> simp

/-- Behind a field stands a comma or a line break. -/
theorem closes_prettyFields (depth : Nat) (fields : List (String × Data)) (rest : List Char) :
    Closes (prettyFields depth fields ++ rest) := by
  intro c first
  cases fields <;> cases first <;> simp

/-! ## Values -/

/-- A value that begins like a number is one. -/
theorem readValue_number (size : Nat) {c : Char} {l : List Char} (h : BeginsNumber c) :
    readValue (size + 1) (c :: l) = match Number.read (c :: l) with
      | some (n, rest) => (.number n, some rest)
      | none => (.cut, none) := by
  have clash {d : Char} (same : c = d) (minus : d ≠ '-') (digit : d.isDigit = false) : False := by
    subst same
    rcases h with rfl | h
    · exact minus rfl
    · rw [h] at digit
      cases digit
  have front : skipSpace (c :: l) = c :: l := by
    refine skipSpace_cons l ?_
    simp only [isSpace, Bool.or_eq_false_iff, beq_eq_false_iff_ne]
    refine ⟨⟨⟨?_, ?_⟩, ?_⟩, ?_⟩ <;> exact fun same => clash same (by decide) (by decide)
  rw [readValue, front]
  split
  case h_7 => rfl
  all_goals
    rename_i split
    exact (clash (List.cons_eq_cons.mp split).1 (by decide) (by decide)).elim

/-- A quoted text is read back up to its closing quote. -/
theorem readQuoted_quote (s : String) (rest : List Char) : ∃ pieces,
    readQuoted (s.toList.flatMap escape ++ '"' :: rest) = some (pieces, rest) ∧
      spelled pieces = some s := by
  obtain ⟨pieces, reads, spells⟩ := readQuoted_flatMap_escape s.toList
  exact ⟨pieces, reads rest, by rw [spelled, spells, Option.map_some, String.ofList_toList]⟩

theorem quote_append (s : String) (rest : List Char) :
    quote s ++ rest = '"' :: (s.toList.flatMap escape ++ '"' :: rest) := by
  simp [quote]

/-- A text is read back. -/
theorem readValue_quote (size : Nat) (s : String) (rest : List Char) :
    readValue (size + 1) (quote s ++ rest) = (.text (some s), some rest) := by
  obtain ⟨pieces, reads, spells⟩ := readQuoted_quote s rest
  rw [quote_append, readValue, skipSpace_cons _ rfl]
  simp only [reads, spells]

/-- A list that is not empty is read as its items. -/
theorem readValue_open_list {size depth : Nat} {l : List Char} {items : List Tree} {rest : Rest}
    (front : ∃ c tail, l = c :: tail ∧ isSpace c = false ∧ c ≠ ']')
    (h : readItems size l = (items, rest)) :
    readValue (size + 1) ('[' :: newline depth ++ l) = (.list items, rest) := by
  obtain ⟨c, tail, rfl, space, other⟩ := front
  rw [List.cons_append, readValue, skipSpace_cons _ rfl]
  simp only [skipSpace_newline, skipSpace_cons tail space]
  split
  · rename_i split
    exact absurd (List.cons_eq_cons.mp split).1 other
  · rw [h]

/-- A record that is not empty is read as its members. -/
theorem readValue_open_record {size depth : Nat} {l : List Char}
    {members : List (Option String × Tree)} {rest : Rest} (front : ∃ tail, l = '"' :: tail)
    (h : readMembers size l = (members, rest)) :
    readValue (size + 1) ('{' :: newline depth ++ l) = (.record members, rest) := by
  obtain ⟨tail, rfl⟩ := front
  rw [List.cons_append, readValue, skipSpace_cons _ rfl]
  simp only [skipSpace_newline, skipSpace_cons tail (show isSpace '"' = false from rfl)]
  split
  · rename_i split
    cases split
  · rw [h]

theorem readItems_last {size : Nat} {l rest : List Char} {item : Tree} (depth : Nat)
    (h : readValue size l = (item, some (newline depth ++ ']' :: rest))) :
    readItems (size + 1) l = ([item], some rest) := by
  rw [readItems, h]
  simp only [skipSpace_newline, skipSpace_cons rest (show isSpace ']' = false from rfl)]

/-- A comma leads to the next item. -/
theorem readItems_next {size : Nat} {l l' : List Char} {item : Tree} {items : List Tree}
    {rest : Rest} (h : readValue size l = (item, some (',' :: l')))
    (others : readItems size l' = (items, rest)) :
    readItems (size + 1) l = (item :: items, rest) := by
  rw [readItems, h]
  simp only [skipSpace_cons l' (show isSpace ',' = false from rfl), others]

theorem readMembers_last {size : Nat} {l rest : List Char} {value : Tree} (name : String)
    (depth : Nat) (h : readValue size (' ' :: l) = (value, some (newline depth ++ '}' :: rest))) :
    readMembers (size + 1) (quote name ++ ':' :: ' ' :: l) = ([(some name, value)], some rest) := by
  obtain ⟨pieces, reads, spells⟩ := readQuoted_quote name (':' :: ' ' :: l)
  rw [quote_append, readMembers, skipSpace_cons _ rfl]
  simp only [reads, spells, skipSpace_cons (' ' :: l) (show isSpace ':' = false from rfl), h,
    skipSpace_newline, skipSpace_cons rest (show isSpace '}' = false from rfl)]

/-- A comma leads to the next member. -/
theorem readMembers_next {size : Nat} {l l' : List Char} {value : Tree}
    {members : List (Option String × Tree)} {rest : Rest} (name : String)
    (h : readValue size (' ' :: l) = (value, some (',' :: l')))
    (others : readMembers size l' = (members, rest)) :
    readMembers (size + 1) (quote name ++ ':' :: ' ' :: l) =
      ((some name, value) :: members, rest) := by
  obtain ⟨pieces, reads, spells⟩ := readQuoted_quote name (':' :: ' ' :: l)
  rw [quote_append, readMembers, skipSpace_cons _ rfl]
  simp only [reads, spells, skipSpace_cons (' ' :: l) (show isSpace ':' = false from rfl), h,
    skipSpace_cons l' (show isSpace ',' = false from rfl), others]

theorem length_newline_pos (depth : Nat) : 0 < (newline depth).length := by
  simp [newline]

theorem length_prettyChars_pos (depth : Nat) (d : Data) : 0 < (prettyChars depth d).length := by
  obtain ⟨c, l, written, -, -⟩ := prettyChars_eq_cons depth d
  rw [written]
  simp

mutual

/-- What is written for a value is consumed, and what stands behind it is left. -/
theorem readValue_prettyChars : ∀ (d : Data) (depth size : Nat) (rest : List Char),
    (prettyChars depth d).length ≤ size + 1 → Closes rest →
    readValue (size + 1) (prettyChars depth d ++ rest) = (ofData d, some rest)
  | .null, _, _, _, _, _ => rfl
  | .bool true, _, _, _, _, _ => rfl
  | .bool false, _, _, _, _, _ => rfl
  | .int i, depth, size, rest, _, closes => by
    obtain ⟨c, l, decimal, begins⟩ := decimal_eq_cons i
    have number := Number.read_decimal i closes
    rw [decimal, List.cons_append] at number
    rw [prettyChars, decimal, List.cons_append, readValue_number size begins, number]
    rfl
  | .text s, _, size, rest, _, _ => readValue_quote size s rest
  | .list [], _, _, _, _, _ => rfl
  | .list (item :: items), depth, size, rest, fits, _ => by
    simp only [prettyChars, List.cons_append, List.append_assoc, List.length_cons,
      List.length_append] at fits ⊢
    have pos := length_newline_pos (depth + 1)
    have read := readItems_prettyItems item items depth size rest (by omega)
    obtain ⟨c, l, front, space, other⟩ := prettyChars_eq_cons (depth + 1) item
    exact readValue_open_list ⟨c, _, by rw [front]; rfl, space, other⟩ read
  | .record [], _, _, _, _, _ => rfl
  | .record ((name, value) :: fields), depth, size, rest, fits, _ => by
    simp only [prettyChars, List.cons_append, List.append_assoc, List.length_cons,
      List.length_append] at fits ⊢
    have pos := length_newline_pos (depth + 1)
    have read := readMembers_prettyFields name value fields depth size rest (by omega)
    exact readValue_open_record ⟨_, quote_append _ _⟩ read
termination_by d => sizeOf d

/-- The items of a list are read back, by induction on them. -/
theorem readItems_prettyItems : ∀ (item : Data) (items : List Data) (depth size : Nat)
    (rest : List Char),
    (prettyChars (depth + 1) item).length + (prettyItems depth items).length ≤ size →
    readItems size (prettyChars (depth + 1) item ++ (prettyItems depth items ++ rest)) =
      (ofData item :: ofItems items, some rest)
  | item, [], depth, size, rest, fits => by
    simp only [prettyItems, List.length_append, List.length_cons, List.length_nil] at fits
    have pos := length_newline_pos depth
    -- the list and its item each take one of the size; the line break and the bracket pay for them
    obtain ⟨size, rfl⟩ : ∃ n, size = n + 2 := ⟨size - 2, by omega⟩
    have read := readValue_prettyChars item (depth + 1) size _ (by omega)
      (closes_prettyItems depth [] rest)
    refine readItems_last depth ?_
    rw [read, prettyItems, List.append_assoc]
    rfl
  | item, next :: items, depth, size, rest, fits => by
    have filled := length_prettyChars_pos (depth + 1) item
    have read (size : Nat) (fits : (prettyChars (depth + 1) item).length ≤ size + 1) :=
      readValue_prettyChars item (depth + 1) size _ fits
        (closes_prettyItems depth (next :: items) rest)
    simp only [prettyItems, List.cons_append, List.append_assoc, List.length_cons,
      List.length_append] at fits read ⊢
    obtain ⟨size, rfl⟩ : ∃ n, size = n + 2 := ⟨size - 2, by omega⟩
    have others := readItems_prettyItems next items depth (size + 1) rest (by omega)
    exact readItems_next (read size (by omega)) ((readItems_newline _ (depth + 1) _).trans others)
termination_by item items => sizeOf item + sizeOf items

/-- The fields of a record are read back, by induction on them. -/
theorem readMembers_prettyFields : ∀ (name : String) (value : Data)
    (fields : List (String × Data)) (depth size : Nat) (rest : List Char),
    (quote name).length + ((prettyChars (depth + 1) value).length +
      (prettyFields depth fields).length + 1 + 1) ≤ size →
    readMembers size (quote name ++ ':' :: ' ' :: (prettyChars (depth + 1) value ++
      (prettyFields depth fields ++ rest))) =
      ((some name, ofData value) :: ofFields fields, some rest)
  | name, value, [], depth, size, rest, fits => by
    obtain ⟨size, rfl⟩ : ∃ n, size = n + 2 := ⟨size - 2, by omega⟩
    have read := readValue_prettyChars value (depth + 1) size _ (by omega)
      (closes_prettyFields depth [] rest)
    refine readMembers_last name depth ?_
    rw [readValue_space, read, prettyFields, List.append_assoc]
    rfl
  | name, value, (name', next) :: fields, depth, size, rest, fits => by
    obtain ⟨size, rfl⟩ : ∃ n, size = n + 2 := ⟨size - 2, by omega⟩
    have read := readValue_prettyChars value (depth + 1) size _ (by omega)
      (closes_prettyFields depth ((name', next) :: fields) rest)
    simp only [prettyFields, List.cons_append, List.append_assoc, List.length_cons,
      List.length_append] at fits read ⊢
    have others := readMembers_prettyFields name' next fields depth (size + 1) rest
      (by omega)
    exact readMembers_next name ((readValue_space _ _).trans read)
      ((readMembers_newline _ (depth + 1) _).trans others)
termination_by _ value fields => sizeOf value + sizeOf fields

end

/-- An indented text is read back as its value, and nothing is left. -/
theorem read_pretty (d : Data) : read (pretty d).toList = (ofData d, some []) := by
  have written : (pretty d).toList = prettyChars 0 d ++ [] := by simp [pretty]
  have closes : Closes [] := by simp [Closes]
  rw [read, written]
  exact readValue_prettyChars d 0 _ [] (by simp; omega) closes

end Tree

/-- Reading an indented text means reading the data it was written from. -/
theorem decode_pretty {α : Type} (read : Tree → Except Fault α) (d : Data) :
    decode read (pretty d).toList = read (Tree.ofData d) := by
  simp only [decode, Tree.read_pretty]
  cases read (Tree.ofData d) <;> rfl

end RoomAudio.Json
