import RoomAudio.Proofs.Text.Blank
import RoomAudio.Proofs.Yaml.Literal
import RoomAudio.Proofs.Yaml.Regular

/-!
# The end of a document

Before a document is read, what is blank at its ends is taken off. That may reach into the text
that stands at the very end, unless there are quotes around it.

## Main definitions

* `Yaml.lastText` — the text that stands at the very end of what is written for a value.
* `Yaml.isClipped` — a text at the very end loses characters when what is blank is taken off.
* `Yaml.trimChars_print` — what is left of a document.
-/

namespace RoomAudio.Yaml

/-! ## The last text -/

mutual

/-- The text that stands at the very end of what is written for a value. -/
def lastText : Data → Option String
  | .text s => some s
  | .list items => lastItemText items
  | .record fields => lastFieldText fields
  | _ => none
termination_by structural d => d

def lastItemText : List Data → Option String
  | [] => none
  | [item] => lastText item
  | _ :: items => lastItemText items
termination_by structural l => l

def lastFieldText : List (String × Data) → Option String
  | [] => none
  | [(_, value)] => lastText value
  | _ :: fields => lastFieldText fields
termination_by structural l => l

end

/-- A text that loses characters if it stands at the very end and what is blank there is taken off:
it ends with a blank character and has no quotes around it. -/
def isClipped (s : String) : Bool :=
  (styleOf s.toList = .plain || styleOf s.toList = .literal) &&
    s.toList.getLast?.any Text.isBlank

/-! ## The last line -/

/-- What is written ends with a character that is not blank, and a line break. -/
def EndsLine (l : List Char) : Prop := ∃ init c, l = init ++ [c, '\n'] ∧ Text.isBlank c = false

theorem EndsLine.append_left {l : List Char} (h : EndsLine l) (before : List Char) :
    EndsLine (before ++ l) := by
  obtain ⟨init, c, rfl, noBlank⟩ := h
  exact ⟨before ++ init, c, by rw [List.append_assoc], noBlank⟩

theorem endsLine_concat {c : Char} (l : List Char) (noBlank : Text.isBlank c = false) :
    EndsLine (l ++ [c] ++ ['\n']) :=
  ⟨l, c, by rw [List.append_assoc]; rfl, noBlank⟩

theorem writeSingleQuotedFrom_eq_concat (n : Nat) (fresh : Bool) (l : List Char) :
    ∃ init, writeSingleQuotedFrom n fresh l = init ++ ['\''] := by
  induction l generalizing fresh with
  | nil => exact ⟨_, rfl⟩
  | cons c l ih =>
    obtain ⟨init, written⟩ := ih true
    obtain ⟨init', written'⟩ := ih false
    obtain ⟨init'', written''⟩ := ih fresh
    rw [writeSingleQuotedFrom]
    split
    · exact ⟨c :: init, by rw [written]; rfl⟩
    split
    · exact ⟨c :: init'', by rw [written'']; rfl⟩
    · rw [written', ← List.append_assoc]
      exact ⟨_, rfl⟩

/-- A text that loses nothing at the very end closes its line visibly. -/
theorem endsLine_writeText (n : Nat) {s : String} (h : isClipped s = false) :
    EndsLine (writeText n s) := by
  have styled := styled_styleOf s.toList
  have last (bare : styleOf s.toList = .plain ∨ styleOf s.toList = .literal) :
      ∃ init c, s.toList = init ++ [c] ∧ Text.isBlank c = false := by
    obtain ⟨init, c, same⟩ := (List.eq_nil_or_concat' _).resolve_left (styled.ne_nil bare)
    refine ⟨init, c, same, ?_⟩
    rw [isClipped, Bool.and_eq_false_iff] at h
    rcases h with quoted | noBlank
    · exact absurd bare (by simpa using quoted)
    · simpa [same] using noBlank
  rw [writeText]
  cases style : styleOf s.toList with
  | plain =>
    obtain ⟨init, c, same, noBlank⟩ := last (.inl style)
    rw [same]
    exact endsLine_concat init noBlank
  | singleQuoted =>
    obtain ⟨init, written⟩ := writeSingleQuotedFrom_eq_concat n false s.toList
    rw [writeSingleQuoted, written]
    exact endsLine_concat ('\'' :: init) rfl
  | doubleQuoted =>
    rw [writeDoubleQuoted]
    exact endsLine_concat _ rfl
  | literal =>
    obtain ⟨init, c, same, noBlank⟩ := last (.inr style)
    have noBreak : isBreak c = false := by
      by_contra isBreak_
      rw [isBlank_of_isBreak (by simpa using isBreak_)] at noBlank
      cases noBlank
    have body : EndsLine (literalBody n true (init ++ [c]) ++ ['\n']) := by
      rw [literalBody_append, literalBody, noBreak, if_neg Bool.false_ne_true, literalBody,
        ← List.append_assoc]
      exact endsLine_concat _ noBlank
    have lines : EndsLine (writeLiteralLines n true s.toList) := by
      rw [same, writeLiteralLines_eq, freshAfter_concat, noBreak]
      exact body
    exact (lines.append_left ['\n']).append_left (literalHeader s.toList)
  | folded =>
    rw [style] at styled
    cases styled


section Last

variable {n : Nat}

/-- The last item decides how a list ends. -/
theorem endsLine_items {d : Data} {items : List Data}
    (h : ∀ e ∈ d :: items, (∀ s ∈ lastText e, isClipped s = false) → EndsLine (writeItemValue n e))
    (last : ∀ s ∈ lastItemText (d :: items), isClipped s = false) :
    EndsLine (writeItemValue n d ++ writeItems n items) := by
  induction items generalizing d with
  | nil =>
    rw [writeItems, List.append_nil]
    exact h d (by simp) last
  | cons e items ih =>
    have next := ih (fun e' mem => h e' (List.mem_cons_of_mem d mem)) last
    rw [writeItems, List.append_assoc]
    exact ((next.append_left ['-']).append_left (indentation n)).append_left _

/-- The last field decides how a record ends. -/
theorem endsLine_fields {name : String} {d : Data} {fields : List (String × Data)}
    (h : ∀ f ∈ (name, d) :: fields,
      (∀ s ∈ lastText f.2, isClipped s = false) → EndsLine (writeFieldValue n f.2))
    (last : ∀ s ∈ lastFieldText ((name, d) :: fields), isClipped s = false) :
    EndsLine (writeFieldValue n d ++ writeFields n fields) := by
  induction fields generalizing name d with
  | nil =>
    rw [writeFields, List.append_nil]
    exact h (name, d) (by simp) last
  | cons f fields ih =>
    obtain ⟨name', e⟩ := f
    have next := ih (fun g mem => h g (List.mem_cons_of_mem (name, d) mem)) last
    rw [writeFields, List.append_assoc]
    exact ((next.append_left [':']).append_left (indentation n ++ name'.toList)).append_left _

/-- A value ends with a character that is not blank, unless the text at its end does not. -/
theorem endsLine_writeValue {d : Data} (regular : Regular d) (n : Nat)
    (last : ∀ s ∈ lastText d, isClipped s = false) :
    EndsLine (writeFieldValue n d) ∧ EndsLine (writeItemValue n d) := by
  induction regular generalizing n with
  | @scalar d style l h =>
    rcases scalar?_eq_some h with ⟨s, rfl, -, -⟩ | ⟨-, -, ⟨init, c, rfl, noBlank⟩, written⟩
    · have text := endsLine_writeText (n + indentStep) (last s rfl)
      exact ⟨text.append_left [' '], text.append_left [' ']⟩
    · rw [(written n).1, (written n).2]
      exact ⟨endsLine_concat (' ' :: init) noBlank, endsLine_concat (' ' :: init) noBlank⟩
  | @list items isItem regular ih =>
    cases items with
    | nil => exact ⟨⟨[' ', '['], ']', rfl, rfl⟩, ⟨[' ', '['], ']', rfl, rfl⟩⟩
    | cons d items =>
      have list (n : Nat) : EndsLine (writeItemValue n d ++ writeItems n items) :=
        endsLine_items (fun e mem clear => (ih e mem n clear).2) last
      refine ⟨?_, (list (n + indentStep)).append_left [' ', '-']⟩
      rw [writeFieldValue, writeItems, List.append_assoc]
      exact ((list n).append_left ['-']).append_left ('\n' :: indentation n)
  | @record fields isName regular ih =>
    cases fields with
    | nil => exact ⟨⟨[' ', '\x7b'], '\x7d', rfl, rfl⟩, ⟨[' ', '\x7b'], '\x7d', rfl, rfl⟩⟩
    | cons f fields =>
      obtain ⟨name, d⟩ := f
      have record (n : Nat) : EndsLine (writeFieldValue n d ++ writeFields n fields) :=
        endsLine_fields (fun f mem clear => (ih f mem n clear).1) last
      constructor
      · rw [writeFieldValue, writeFields, List.append_assoc]
        exact ((record (n + indentStep)).append_left [':']).append_left
          ('\n' :: (indentation (n + indentStep) ++ name.toList))
      · rw [writeItemValue, List.append_assoc]
        exact ((record (n + indentStep)).append_left [':']).append_left (' ' :: name.toList)

end Last

/-! ## The whole document -/

/-- What is left of the document of a record when what is blank at its ends is taken off. -/
theorem trimChars_print {name : String} {d : Data} {fields : List (String × Data)}
    (regular : Regular (.record ((name, d) :: fields)))
    (first : name.toList.head?.any Text.isBlank = false)
    (kept : ∀ s ∈ lastText (.record ((name, d) :: fields)), isClipped s = false) :
    Text.trimChars (print (.record ((name, d) :: fields))).toList =
      (writeFields 0 ((name, d) :: fields)).dropLast := by
  obtain ⟨isName, regular⟩ := regular.of_record
  obtain ⟨c, l, same⟩ := List.exists_cons_of_ne_nil (isName (name, d) (by simp)).allowsPlain.2
  have noBlank : Text.isBlank c = false := by simpa [same] using first
  have written : writeFields 0 ((name, d) :: fields) =
      c :: l ++ ':' :: (writeFieldValue 0 d ++ writeFields 0 fields) := by
    simp [writeFields, same, indentation]
  obtain ⟨init, e, last, noBlank'⟩ := endsLine_fields (n := 0)
    (fun f mem clear => (endsLine_writeValue (regular f mem) 0 clear).1) kept
  have text : c :: l ++ ':' :: (init ++ [e, '\n']) = c :: (l ++ ':' :: init) ++ e :: ['\n'] := by
    simp
  have left : (c :: (l ++ ':' :: init) ++ e :: ['\n']).dropLast =
      c :: (l ++ ':' :: init) ++ [e] := by
    rw [List.append_cons, List.dropLast_concat]
  rw [print, String.toList_ofList, writeRoot, written, last, text, left]
  exact Text.trimChars_of_ends _ noBlank noBlank' (by decide)

/-- A literal block at the very end has no line break to lose. -/
theorem endsBreak_of_kept {d : Data} (kept : ∀ s ∈ lastText d, isClipped s = false) :
    ∀ s ∈ lastText d, styleOf s.toList = .literal → endsBreak s.toList = false := by
  intro s mem literal
  have whole := kept s mem
  rw [isClipped, literal] at whole
  rw [endsBreak]
  cases last : s.toList.getLast? with
  | none => rfl
  | some c =>
    rw [last] at whole
    cases break_ : isBreak c with
    | false => exact break_
    | true => simp [isBlank_of_isBreak break_] at whole

end RoomAudio.Yaml
