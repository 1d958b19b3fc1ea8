import RoomAudio.Proofs.Yaml.Quoted
import RoomAudio.Proofs.Yaml.Regular

/-!
# Written data

What can be said of the text that is written for a value without reading it.

## Main definitions

* `Yaml.all_isPrintable_writeValue` — all its characters are printable.
* `Yaml.follows_writeItems`, `Yaml.follows_writeFields` — how a list or record begins.
-/

namespace RoomAudio.Yaml

/-! ## Characters -/

section Characters

variable {n : Nat} {fresh : Bool} {l : List Char}

theorem all_isPrintable_indentation (n : Nat) : (indentation n).all isPrintable = true := by
  rw [List.all_eq_true]
  intro c mem
  rw [List.eq_of_mem_replicate mem]
  rfl

theorem all_isPrintable_begin (n : Nat) (fresh : Bool) :
    (if fresh then indentation n else []).all isPrintable = true := by
  cases fresh
  · rfl
  · exact all_isPrintable_indentation n

theorem all_isPrintable_writeSingleQuotedFrom (h : l.all isPrintable = true) :
    (writeSingleQuotedFrom n fresh l).all isPrintable = true := by
  induction l generalizing fresh with
  | nil =>
    rw [writeSingleQuotedFrom, List.all_append, all_isPrintable_begin]
    rfl
  | cons c l ih =>
    rw [List.all_cons, Bool.and_eq_true] at h
    rw [writeSingleQuotedFrom]
    split
    · rw [List.all_cons, h.1, ih h.2]
      rfl
    split
    · rw [List.all_cons, h.1, ih h.2]
      rfl
    · have written : (if c = '\'' then ['\'', '\''] else [c]).all isPrintable = true := by
        split
        · rfl
        · simpa using h.1
      rw [List.all_append, List.all_append, all_isPrintable_begin, written, ih h.2]
      rfl

theorem all_isPrintable_hexDigits (width n : Nat) :
    (hexDigits width n).all isPrintable = true := by
  induction width generalizing n with
  | zero => rfl
  | succ width ih =>
    have digit := (isPrintable_toUpper_hexDigit (n % 16) (Nat.mod_lt _ (by decide))).1
    simp [hexDigits, ih, digit]

theorem all_isPrintable_writeDoubleQuotedChar (c : Char) :
    (writeDoubleQuotedChar c).all isPrintable = true := by
  rw [writeDoubleQuotedChar]
  split
  · have escaped := escaped_escape c
    generalize escape c = written at escaped ⊢
    cases escaped with
    | letter printable => simpa using ⟨rfl, printable⟩
    | code printable => simpa [all_isPrintable_hexDigits] using ⟨rfl, printable⟩
  · rename_i same
    simp only [Bool.or_eq_true, Bool.not_eq_true', decide_eq_true_eq, not_or,
      Bool.not_eq_false] at same
    simpa using same.1.1.1

theorem all_isPrintable_writeLiteralLines (h : l.all isPrintable = true) :
    (writeLiteralLines n fresh l).all isPrintable = true := by
  induction l generalizing fresh with
  | nil => cases fresh <;> rfl
  | cons c l ih =>
    rw [List.all_cons, Bool.and_eq_true] at h
    rw [writeLiteralLines]
    split
    · rw [List.all_cons, h.1, ih h.2]
      rfl
    · rw [List.all_append, List.all_cons, all_isPrintable_begin, h.1, ih h.2]
      rfl

/-- All characters of a written text are printable. -/
theorem all_isPrintable_writeText (n : Nat) (s : String) :
    (writeText n s).all isPrintable = true := by
  have styled := styled_styleOf s.toList
  rw [writeText]
  generalize styleOf s.toList = style at styled ⊢
  cases styled with
  | plain meaning plain =>
    have printable := (unmarked_of_allowsPlain plain true).1.printable
    rw [List.all_append, List.all_eq_true.mpr printable]
    rfl
  | singleQuoted noFeed quoted =>
    simp only [allowsSingleQuoted, Bool.and_eq_true] at quoted
    rw [List.all_append, writeSingleQuoted, List.all_cons,
      all_isPrintable_writeSingleQuotedFrom quoted.1.1]
    rfl
  | doubleQuoted =>
    have chars : (s.toList.flatMap writeDoubleQuotedChar).all isPrintable = true := by
      simp [List.all_flatMap, all_isPrintable_writeDoubleQuotedChar]
    rw [writeDoubleQuoted, List.all_append, List.all_append, List.all_cons, chars]
    rfl
  | literal feed literal =>
    simp only [allowsLiteral, Bool.and_eq_true] at literal
    have header : (literalHeader s.toList).all isPrintable = true := by
      rw [literalHeader]
      cases s.toList.head?.any fun c => c == ' ' || isBreak c <;> cases keepsBreaks s.toList <;>
        cases endsBreak s.toList <;> rfl
    rw [writeLiteral, List.all_append, List.all_cons, header,
      all_isPrintable_writeLiteralLines literal.1.1]
    rfl

theorem all_isPrintable_writeItems {items : List Data}
    (h : ∀ d ∈ items, ∀ n, (writeItemValue n d).all isPrintable = true) (n : Nat) :
    (writeItems n items).all isPrintable = true := by
  induction items with
  | nil => rfl
  | cons d items ih =>
    rw [writeItems, List.all_append, List.all_append, List.all_cons, all_isPrintable_indentation,
      h d (by simp), ih fun e mem => h e (by simp [mem])]
    rfl

theorem all_isPrintable_writeFields {fields : List (String × Data)}
    (isName : ∀ f ∈ fields, IsName f.1)
    (h : ∀ f ∈ fields, ∀ n, (writeFieldValue n f.2).all isPrintable = true) (n : Nat) :
    (writeFields n fields).all isPrintable = true := by
  induction fields with
  | nil => rfl
  | cons f fields ih =>
    have name := (isName f (by simp)).all_isPrintable
    rw [writeFields, List.all_append, List.all_append, List.all_append, List.all_cons,
      all_isPrintable_indentation, name, h f (by simp),
      ih (fun g mem => isName g (by simp [mem])) fun g mem => h g (by simp [mem])]
    rfl

/-- All characters of a written value are printable. -/
theorem all_isPrintable_writeValue {d : Data} (regular : Regular d) (n : Nat) :
    (writeFieldValue n d).all isPrintable = true ∧ (writeItemValue n d).all isPrintable = true := by
  induction regular generalizing n with
  | @scalar d style l h =>
    rcases scalar?_eq_some h with ⟨s, rfl, -, -⟩ | ⟨-, plain, -, written⟩
    · have text := all_isPrintable_writeText (n + indentStep) s
      constructor
      · rw [writeFieldValue, List.all_cons, text]
        rfl
      · rw [writeItemValue, List.all_cons, text]
        rfl
    · have printable := (unmarked_of_allowsPlain plain true).1.printable
      rw [(written n).1, (written n).2, List.all_append, List.all_cons,
        List.all_eq_true.mpr printable]
      exact ⟨rfl, rfl⟩
  | @list items isItem regular ih =>
    cases items with
    | nil => exact ⟨rfl, rfl⟩
    | cons d items =>
      have list := all_isPrintable_writeItems (fun d mem n => (ih d mem n).2)
      have others := all_isPrintable_writeItems
        (fun e mem n => (ih e (List.mem_cons_of_mem d mem) n).2) (n + indentStep)
      constructor
      · rw [writeFieldValue, List.all_cons, list n]
        rfl
      · rw [writeItemValue, List.all_append, List.all_cons, List.all_cons,
          (ih d (by simp) _).2, others]
        rfl
  | @record fields isName regular ih =>
    cases fields with
    | nil => exact ⟨rfl, rfl⟩
    | cons f fields =>
      have all := all_isPrintable_writeFields isName (fun g mem n => (ih g mem n).1)
      have others := all_isPrintable_writeFields
        (fun g mem => isName g (List.mem_cons_of_mem f mem))
        (fun g mem n => (ih g (List.mem_cons_of_mem f mem) n).1) (n + indentStep)
      have name := (isName f (by simp)).all_isPrintable
      constructor
      · rw [writeFieldValue, List.all_cons, all]
        rfl
      · rw [writeItemValue, List.all_append, List.all_append, List.all_cons, List.all_cons, name,
          (ih f (by simp) _).1, others]
        rfl

end Characters

/-! ## What follows -/

section Following

variable {n : Nat} {next : List Char}

theorem writeText_ne_nil (n : Nat) (s : String) : writeText n s ≠ [] := by
  rw [writeText]
  cases styleOf s.toList <;>
    simp [writeSingleQuoted, writeDoubleQuoted, writeLiteral, literalHeader]

/-- A value begins with a gap, and that is not all. -/
theorem writeValue_eq_cons (n : Nat) (d : Data) :
    (∃ c l, writeFieldValue n d = c :: l ∧ isGap c = true ∧ l ≠ []) ∧
      ∃ c l, writeItemValue n d = c :: l ∧ isGap c = true ∧ l ≠ [] := by
  cases d with
  | list items =>
    cases items with
    | nil => exact ⟨⟨_, _, rfl, rfl, by simp⟩, ⟨_, _, rfl, rfl, by simp⟩⟩
    | cons d items => exact ⟨⟨_, _, rfl, rfl, by simp [writeItems]⟩, ⟨_, _, rfl, rfl, by simp⟩⟩
  | record fields =>
    cases fields with
    | nil => exact ⟨⟨_, _, rfl, rfl, by simp⟩, ⟨_, _, rfl, rfl, by simp⟩⟩
    | cons f fields => exact ⟨⟨_, _, rfl, rfl, by simp [writeFields]⟩, ⟨_, _, rfl, rfl, by simp⟩⟩
  | text s =>
    have some := writeText_ne_nil (n + indentStep) s
    exact ⟨⟨_, _, rfl, rfl, some⟩, ⟨_, _, rfl, rfl, some⟩⟩
  | _ => exact ⟨⟨_, _, rfl, rfl, by simp⟩, ⟨_, _, rfl, rfl, by simp⟩⟩

theorem writeValue_ne_nil (n : Nat) (d : Data) :
    writeFieldValue n d ≠ [] ∧ writeItemValue n d ≠ [] := by
  obtain ⟨⟨c, l, written, -, -⟩, ⟨c', l', written', -, -⟩⟩ := writeValue_eq_cons n d
  rw [written, written']
  exact ⟨List.cons_ne_nil c l, List.cons_ne_nil c' l'⟩

theorem ahead_writeItems_cons (n : Nat) (d : Data) {items : List Data}
    (others : items ≠ [] → ahead (writeItems n items) next ≠ []) :
    ahead (writeItems n (d :: items)) next =
      indentation n ++ '-' :: ahead (writeItemValue n d) (ahead (writeItems n items) next) := by
  have written : writeItems n (d :: items) =
      (indentation n ++ ['-']) ++ (writeItemValue n d ++ writeItems n items) := by
    simp [writeItems]
  have some : writeItemValue n d ++ writeItems n items ≠ [] := by simp [writeValue_ne_nil]
  have more : writeItems n items ≠ [] → ahead (writeItems n items) next ≠ [] := by
    cases items with
    | nil => exact fun h => absurd rfl h
    | cons e items => exact fun _ => others (by simp)
  rw [written, append_ahead some, ahead_append more, List.append_assoc]
  rfl

theorem follows_writeItems (items : List Data) (follows : Follows n next) :
    Follows n (ahead (writeItems n items) next) ∧
      (items ≠ [] → ahead (writeItems n items) next ≠ []) := by
  induction items with
  | nil => exact ⟨by rwa [writeItems, nil_ahead], fun h => absurd rfl h⟩
  | cons d items ih =>
    rw [ahead_writeItems_cons n d ih.2]
    exact ⟨.token (Nat.le_refl n) ⟨by decide, by decide⟩, by simp⟩

/-- A field behind whatever stands in front of its name. -/
theorem ahead_field (before : List Char) (n : Nat) (name : String) (d : Data)
    {fields : List (String × Data)}
    (others : fields ≠ [] → ahead (writeFields n fields) next ≠ []) :
    ahead (before ++ name.toList ++ ':' :: writeFieldValue n d ++ writeFields n fields) next =
      before ++
        (name.toList ++ ':' :: ahead (writeFieldValue n d) (ahead (writeFields n fields) next)) := by
  have written : before ++ name.toList ++ ':' :: writeFieldValue n d ++ writeFields n fields =
      (before ++ name.toList ++ [':']) ++ (writeFieldValue n d ++ writeFields n fields) := by
    simp
  have some : writeFieldValue n d ++ writeFields n fields ≠ [] := by simp [writeValue_ne_nil]
  have more : writeFields n fields ≠ [] → ahead (writeFields n fields) next ≠ [] := by
    cases fields with
    | nil => exact fun h => absurd rfl h
    | cons f fields => exact fun _ => others (by simp)
  rw [written, append_ahead some, ahead_append more, List.append_assoc, List.append_assoc]
  rfl

theorem follows_writeFields {fields : List (String × Data)} (isName : ∀ f ∈ fields, IsName f.1)
    (follows : Follows n next) :
    Follows n (ahead (writeFields n fields) next) ∧
      (fields ≠ [] → ahead (writeFields n fields) next ≠ []) := by
  induction fields with
  | nil => exact ⟨by rwa [writeFields, nil_ahead], fun h => absurd rfl h⟩
  | cons f fields ih =>
    obtain ⟨name, d⟩ := f
    obtain ⟨plain, some⟩ := (isName (name, d) (by simp)).allowsPlain
    rw [writeFields, ahead_field _ n name d (ih fun f mem => isName f (by simp [mem])).2]
    obtain ⟨c, l, same⟩ := List.exists_cons_of_ne_nil some
    rw [same] at plain ⊢
    exact ⟨.token (Nat.le_refl n) (starts_of_allowsPlain plain []).1, by simp⟩

end Following

end RoomAudio.Yaml
