import RoomAudio.Proofs.Yaml.Nodes

/-!
# Reading back YAML

The document of a record is read as the tree of the same shape, unless what is blank at its end
belongs to the text that stands there.

## Main definitions

* `Yaml.readsBack` — single values are read back from their trees.
* `Yaml.ofText_trimChars_print` — the tree of what is left of a document.
* `Yaml.decode_trimChars_print` — the record of a document is read from its tree.
-/

namespace RoomAudio.Yaml

/-! ## Single values -/

theorem optional_plain (s : Source) {l : List Char} (some : l ≠ []) (word : isNullWord l = false) :
    s.optional (.scalar none .plain (String.ofList l)) =
      pure (.some (.scalar none .plain (String.ofList l))) := by
  have empty : (String.ofList l).isEmpty = false := by
    rw [Bool.eq_false_iff, ne_eq, String.isEmpty_iff, String.ofList_eq_empty_iff]
    exact some
  have read : s.optional (.scalar none .plain (String.ofList l)) =
      if (String.ofList l).isEmpty || isNullWord (String.ofList l).toList then pure none
      else pure (.some (.scalar none .plain (String.ofList l))) := rfl
  rw [read, empty, String.toList_ofList, word]
  rfl

theorem isNullWord_of_isDigit {init : List Char} {c : Char} (digit : c.isDigit = true) :
    isNullWord (init ++ [c]) = false := by
  have other (word : List Char) (letter : word.getLast?.any Char.isDigit = false) :
      String.ofList (init ++ [c]) ≠ String.ofList word := by
    intro same
    rw [← String.ofList_injective same] at letter
    simp [digit] at letter
  rw [isNullWord, List.contains_eq_any_beq, List.any_eq_false]
  intro word mem
  rw [beq_iff_eq, ← @String.ofList_toList word]
  refine other _ ?_
  simp only [List.mem_cons, List.not_mem_nil, or_false] at mem
  rcases mem with rfl | rfl | rfl | rfl <;> rfl

/-- A value that is there is told from one that is not. -/
theorem optional_ofData (s : Source) {d : Data} (some : d ≠ .null) :
    s.optional (Node.ofData d) = pure (.some (Node.ofData d)) := by
  cases d with
  | null => exact absurd rfl some
  | bool b =>
    cases b
    · exact optional_plain s (l := "false".toList) (by decide) (by decide)
    · exact optional_plain s (l := "true".toList) (by decide) (by decide)
  | int i =>
    obtain ⟨init, c, same, digit⟩ := decimal_eq_concat i
    rw [Node.ofData, same]
    exact optional_plain s (by simp) (isNullWord_of_isDigit digit)
  | text t =>
    have styled := styled_styleOf t.toList
    rw [Node.ofData]
    cases style : styleOf t.toList with
    | plain =>
      rw [style] at styled
      cases styled with
      | plain meaning =>
        rw [Meaning.ofPlain] at meaning
        split at meaning
        · cases meaning
        · rename_i other
          rw [Bool.or_eq_true, not_or, List.isEmpty_iff, Bool.not_eq_true] at other
          have read := optional_plain s other.1 other.2
          rwa [String.ofList_toList] at read
    | _ => rfl
  | list items => rfl
  | record fields => rfl

/-- The readings of YAML trees give plain data back. -/
theorem readsBack (s : Source) : (format s).ReadsBack Node.ofData where
  text t := rfl
  int i small := by
    have kept : (integer? (String.ofList (Data.decimal i)).toList).filter
        (fun i => mayWrite intTag none .plain && Text.isInt64 i) = some i := by
      rw [String.toList_ofList, integer?_decimal]
      simp [mayWrite, small]
    change s.int (.scalar none .plain (String.ofList (Data.decimal i))) = pure i
    simp only [Source.int, Source.follow, pure_bind, kept]
  bool b := by cases b <;> rfl
  optional d some := optional_ofData s some
  items items := by
    rw [← Node.ofItems_eq_map]
    rfl
  members names fields := by
    rw [← Node.ofFields_eq_map]
    rfl
  textOrOther t := by
    have read : (format s).textOrOther (Node.ofData (.text t)) =
        (textOfScalar none (styleOf t.toList) t : Reading (Option String)) := rfl
    have styled := styled_styleOf t.toList
    rw [read, textOfScalar]
    cases style : styleOf t.toList with
    | plain =>
      rw [style] at styled
      cases styled with
      | plain meaning =>
        rw [meaning]
        rfl
    | _ => rfl

/-! ## Whole documents -/

section Document

variable {name : String} {d : Data} {fields : List (String × Data)}
  (regular : Regular (.record ((name, d) :: fields)))
  (first : name.toList.head?.any Text.isBlank = false)
  (kept : ∀ s ∈ lastText (.record ((name, d) :: fields)), isClipped s = false)
include regular first kept

/-- A document begins with the name of the first field. -/
theorem head?_trimChars_print :
    (Text.trimChars (print (.record ((name, d) :: fields))).toList).head? = name.toList.head? := by
  obtain ⟨c, l, same⟩ := List.exists_cons_of_ne_nil
    (regular.of_record.1 (name, d) (by simp)).allowsPlain.2
  have written : writeFields 0 ((name, d) :: fields) =
      c :: (l ++ ':' :: (writeFieldValue 0 d ++ writeFields 0 fields)) := by
    simp [writeFields, same, indentation]
  rw [trimChars_print regular first kept, written, List.dropLast_cons_of_ne_nil (by simp), same]
  rfl

/-- What is left of the document of a record is read as its tree. -/
theorem ofText_trimChars_print : ∃ size,
    Source.ofText (Text.trimChars (print (.record ((name, d) :: fields))).toList) =
      { root := Node.ofData (.record ((name, d) :: fields)), anchors := [], size
        whole := true } := by
  rw [Source.ofText, trimChars_print regular first kept, scan_record regular kept,
    eventsOf_documentTokens regular]
  exact Source.build_documentEvents regular

/-- Whatever is read from the tree of a record is read from its document. -/
theorem decode_trimChars_print {α : Type} {read : Format Node Reading → Node → Reading α} {a : α}
    (back : ∀ s, read (format s) (Node.ofData (.record ((name, d) :: fields))) = pure a) :
    decode read (Text.trimChars (print (.record ((name, d) :: fields))).toList) = .ok a := by
  obtain ⟨size, source⟩ := ofText_trimChars_print regular first kept
  rw [decode, source, back]
  rfl

end Document

end RoomAudio.Yaml
