import RoomAudio.Proofs.Yaml.Integer
import RoomAudio.Proofs.Yaml.Style
import RoomAudio.Text.Blank
import RoomAudio.Yaml.Printer
import RoomAudio.Yaml.Token.Scan

/-!
# Regular data

The plain data that the records of this program consist of: what is written for it has keys that
are plain words, and a list is never an item of another one.

## Main definitions

* `Yaml.Regular` — data whose fields have plain words as names and whose lists are not nested.
* `Yaml.scalar?_eq_some` — a single value is a text, or a word that is written plainly.
-/

namespace RoomAudio.Yaml

/-! ## Regular data -/

def scalar? : Data → Option (Style × List Char)
  | .null => some (.plain, "null".toList)
  | .bool b => some (.plain, (Data.boolName b).toList)
  | .int i => some (.plain, Data.decimal i)
  | .text s => some (styleOf s.toList, s.toList)
  | .list _ => none
  | .record _ => none

def IsName (name : String) : Prop :=
  styleOf name.toList = .plain ∧ name.toList.length ≤ maxKeyLength

instance (name : String) : Decidable (IsName name) := inferInstanceAs (Decidable (_ ∧ _))

/-- What may be an item of a list: a single value, or a record with fields. -/
def IsItem : Data → Prop
  | .list _ => False
  | .record fields => fields ≠ []
  | _ => True

/-- The fields of records have plain words as names, and lists hold neither lists nor empty
records. -/
inductive Regular : Data → Prop where
  | scalar {d : Data} {style : Style} {l : List Char} (h : scalar? d = some (style, l)) : Regular d
  | list {items : List Data} (isItem : ∀ d ∈ items, IsItem d) (regular : ∀ d ∈ items, Regular d) :
      Regular (.list items)
  | record {fields : List (String × Data)} (isName : ∀ f ∈ fields, IsName f.1)
      (regular : ∀ f ∈ fields, Regular f.2) : Regular (.record fields)

theorem Regular.of_record {fields : List (String × Data)} (h : Regular (.record fields)) :
    (∀ f ∈ fields, IsName f.1) ∧ ∀ f ∈ fields, Regular f.2 := by
  cases h with
  | scalar h => cases h
  | record isName regular => exact ⟨isName, regular⟩

theorem IsName.allowsPlain {name : String} (h : IsName name) :
    allowsPlain name.toList = true ∧ name.toList ≠ [] := by
  have styled := styled_styleOf name.toList
  rw [h.1] at styled
  refine ⟨?_, styled.ne_nil (.inl rfl)⟩
  cases styled with
  | plain meaning allowed => exact allowed

theorem IsName.all_isPrintable {name : String} (h : IsName name) :
    name.toList.all isPrintable = true :=
  List.all_eq_true.mpr (unmarked_of_allowsPlain h.allowsPlain.1 true).1.printable

/-! ## Single values -/

/-- A single value is a text, or a word that is written plainly. -/
theorem scalar?_eq_some {d : Data} {style : Style} {l : List Char}
    (h : scalar? d = some (style, l)) :
    (∃ s, d = .text s ∧ style = styleOf s.toList ∧ l = s.toList) ∨
      (style = .plain ∧ allowsPlain l = true ∧
        (∃ init c, l = init ++ [c] ∧ Text.isBlank c = false) ∧
        ∀ indent, writeFieldValue indent d = ' ' :: l ++ ['\n'] ∧
          writeItemValue indent d = ' ' :: l ++ ['\n']) := by
  cases d with
  | null =>
    cases h
    exact .inr ⟨rfl, by decide, ⟨['n', 'u', 'l'], 'l', rfl, rfl⟩, fun indent => ⟨rfl, rfl⟩⟩
  | bool b =>
    cases h
    refine .inr ⟨rfl, ?_, ?_, fun indent => ⟨rfl, rfl⟩⟩
    · cases b <;> decide
    · cases b
      · exact ⟨['f', 'a', 'l', 's'], 'e', rfl, rfl⟩
      · exact ⟨['t', 'r', 'u'], 'e', rfl, rfl⟩
  | int i =>
    cases h
    obtain ⟨init, c, same, digit⟩ := decimal_eq_concat i
    refine .inr ⟨rfl, allowsPlain_decimal i, ⟨init, c, same, ?_⟩, fun indent => ⟨rfl, rfl⟩⟩
    have bounds := toNat_of_isDigit digit
    simp only [Text.isBlank, Bool.or_eq_false_iff, Bool.and_eq_false_iff, decide_eq_false_iff_not,
      beq_eq_false_iff_ne]
    omega
  | text s =>
    cases h
    exact .inl ⟨s, rfl, rfl, rfl⟩
  | list items => cases h
  | record fields => cases h

end RoomAudio.Yaml
