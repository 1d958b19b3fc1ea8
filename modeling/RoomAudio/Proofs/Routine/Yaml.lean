import RoomAudio.Proofs.Routine.Source
import RoomAudio.Proofs.Yaml.RoundTrip

/-!
# Routines in YAML

A routine is read back from the YAML text that is written for it, unless what is blank at the end
of the text belongs to the value that was written last.

## Main definitions

* `Document.regular_toData` — what is written for a routine is regular data.
* `yaml_round_trip` — a routine that was read from a file is read back from YAML.
-/

namespace RoomAudio

open Yaml (IsName IsItem Regular)

/-! ## Regular data -/

def RegularFields (fields : List (String × Data)) : Prop :=
  ∀ f ∈ fields, IsName f.1 ∧ Regular f.2

namespace RegularFields

variable {name : String} {d : Data} {fields fields' : List (String × Data)}

theorem record (h : RegularFields fields) : Regular (.record fields) :=
  .record (fun f mem => (h f mem).1) fun f mem => (h f mem).2

theorem nil : RegularFields [] := by simp [RegularFields]

theorem cons (isName : IsName name) (regular : Regular d) (h : RegularFields fields) :
    RegularFields ((name, d) :: fields) := by
  intro f mem
  rcases List.mem_cons.mp mem with rfl | mem
  · exact ⟨isName, regular⟩
  · exact h f mem

theorem append (h : RegularFields fields) (h' : RegularFields fields') :
    RegularFields (fields ++ fields') := by
  intro f mem
  rcases List.mem_append.mp mem with mem | mem
  · exact h f mem
  · exact h' f mem

/-- Fields may be left out. -/
theorem guarded {c : Prop} [Decidable c] (h : RegularFields fields) :
    RegularFields (if c then [] else fields) := by
  split
  · exact nil
  · exact h

theorem optionalField {α : Type} (isName : IsName name) {value : Option α} {write : α → Data}
    (regular : ∀ a, Regular (write a)) : RegularFields (Data.optionalField name value write) := by
  cases value with
  | none => exact nil
  | some a => exact cons isName (regular a) nil

end RegularFields

theorem regular_texts (l : List String) : Regular (Data.texts l) := by
  refine .list ?_ ?_
  · intro d mem
    obtain ⟨s, -, rfl⟩ := List.mem_map.mp mem
    exact trivial
  · intro d mem
    obtain ⟨s, -, rfl⟩ := List.mem_map.mp mem
    exact .scalar rfl

theorem Defaults.regular_toData (d : Defaults) : Regular d.toData := by
  have backend : RegularFields (if d.backend.isEmpty then [] else [("backend", .text d.backend)]) :=
    .guarded (.cons (by decide) (.scalar rfl) .nil)
  have rooms : RegularFields (if d.rooms.isEmpty then [] else [("rooms", Data.texts d.rooms)]) :=
    .guarded (.cons (by decide) (regular_texts d.rooms) .nil)
  have volume : RegularFields (Data.optionalField "volume" d.volume .int) :=
    .optionalField (by decide) fun _ => .scalar rfl
  have shuffle : RegularFields (Data.optionalField "shuffle" d.shuffle .bool) :=
    .optionalField (by decide) fun _ => .scalar rfl
  exact (((backend.append rooms).append volume).append shuffle).record

/-- Steps are records with fields, so they may be items of a list. -/
theorem Step.regular_toData (s : Step) : Regular s.toData ∧ IsItem s.toData := by
  have text (name : String) (isName : IsName name) (value : Option String) :
      RegularFields (Data.optionalField name value .text) :=
    .optionalField isName fun _ => .scalar rfl
  rw [toData]
  generalize s.toRecord = r
  have rooms : RegularFields (Data.optionalField "rooms" r.rooms Data.texts) :=
    .optionalField (by decide) regular_texts
  have value : RegularFields (Data.optionalField "value" r.value .int) :=
    .optionalField (by decide) fun _ => .scalar rfl
  have kind : RegularFields (("type", .text r.kind) ::
      Data.optionalField "rooms" r.rooms Data.texts) := .cons (by decide) (.scalar rfl) rooms
  have query := text "query" (by decide) r.query
  have playlistId := text "playlistId" (by decide) r.playlistId
  have state := text "state" (by decide) r.state
  have timeout := text "timeout" (by decide) r.timeout
  have action := text "action" (by decide) r.action
  exact ⟨((((((kind.append query).append playlistId).append value).append state).append
    timeout).append action).record, by simp [Record.toData, IsItem]⟩

namespace Document

/-- Routines are written with plain words as names of fields. -/
theorem regular_toData (d : Document) : Regular d.toData := by
  have steps : Regular (.list (d.steps.map Step.toData)) := by
    refine .list ?_ ?_
    · intro e mem
      obtain ⟨s, -, rfl⟩ := List.mem_map.mp mem
      exact s.regular_toData.2
    · intro e mem
      obtain ⟨s, -, rfl⟩ := List.mem_map.mp mem
      exact s.regular_toData.1
  have defaults : RegularFields (Data.optionalField "defaults" d.defaults Defaults.toData) :=
    .optionalField (by decide) Defaults.regular_toData
  have before : RegularFields (("version", .text d.version) :: ("name", .text d.name) ::
      Data.optionalField "defaults" d.defaults Defaults.toData) :=
    .cons (by decide) (.scalar rfl) (.cons (by decide) (.scalar rfl) defaults)
  exact (before.append (.cons (by decide) steps .nil)).record

/-! ## Reading back YAML -/

def lastText (d : Document) : Option String := Yaml.lastText d.toData

/-- A readable routine is read back from its YAML form unless its last text is clipped. -/
theorem parse_print_yaml {d : Document} (readable : d.Readable)
    (kept : ∀ s ∈ d.lastText, Yaml.isClipped s = false) :
    parse (Text.Utf8.encode (d.print .yaml).toList) = .ok d := by
  have regular := d.regular_toData
  have back (s : Yaml.Source) : read (Yaml.format s) (Yaml.Node.ofData d.toData) = pure d :=
    read_toData (Yaml.readsBack s) readable
  have decoded : Yaml.decode read (Text.trimChars (d.print .yaml).toList) = .ok d :=
    Yaml.decode_trimChars_print regular rfl kept back
  have first : (Text.trimChars (d.print .yaml).toList).head? = some 'v' :=
    Yaml.head?_trimChars_print regular rfl kept
  rw [parse, Text.Utf8.decode_encode]
  dsimp only
  generalize Text.trimChars (d.print .yaml).toList = text at decoded first ⊢
  obtain ⟨rest, rfl⟩ := List.head?_eq_some_iff.mp first
  exact (mapError_eq_ok_iff _ _ d).mpr decoded

end Document

/-- A routine that was read from a file is read back from the YAML text that is written for it,
unless the text that is written last ends with a blank character and has no quotes around it. -/
theorem yaml_round_trip {bytes : List UInt8} {d : Document} (h : Document.parse bytes = .ok d)
    (kept : ∀ s ∈ d.lastText, Yaml.isClipped s = false) :
    Document.parse (Text.Utf8.encode (d.print .yaml).toList) = .ok d :=
  Document.parse_print_yaml (Document.readable_of_parse h) kept

/-- A name that ends with two line breaks, and a query with quotes around its blank ends, which is
written last. -/
theorem yaml_round_trip_quoted :
    Document.parse (Text.Utf8.encode
      "name: |+\n  Küche\n\nsteps:\n- query: ' Jazz '\n  type: play\n".toList) =
        .ok { name := "Küche\n\n", steps := [.play (some " Jazz ") none] } ∧
    Document.lastText { name := "Küche\n\n", steps := [.play (some " Jazz ") none] } =
      some " Jazz " ∧
    Yaml.isClipped " Jazz " = false ∧
    Document.parse (Text.Utf8.encode (Document.print
      { name := "Küche\n\n", steps := [.play (some " Jazz ") none] } .yaml).toList) =
        .ok { name := "Küche\n\n", steps := [.play (some " Jazz ") none] } := by
  have source : Document.parse (Text.Utf8.encode
      "name: |+\n  Küche\n\nsteps:\n- query: ' Jazz '\n  type: play\n".toList) =
        .ok { name := "Küche\n\n", steps := [.play (some " Jazz ") none] } := by decide +kernel
  have last : Document.lastText { name := "Küche\n\n", steps := [.play (some " Jazz ") none] } =
      some " Jazz " := by decide +kernel
  have kept : Yaml.isClipped " Jazz " = false := by decide +kernel
  refine ⟨source, last, kept, yaml_round_trip source fun s mem => ?_⟩
  obtain rfl := Option.some.inj (last.symm.trans mem)
  exact kept

/-- One or two line breaks, or another blank character, at the end of a query that is written last
belong to what is blank at the end of the whole text. -/
theorem yaml_last_blank_lost :
    (Document.parse (Text.Utf8.encode
      "name: Evening\nsteps:\n- query: |\n    Jazz\n  type: play\n".toList) =
        .ok { name := "Evening", steps := [.play (some "Jazz\n") none] } ∧
    Document.parse (Text.Utf8.encode (Document.print
      { name := "Evening", steps := [.play (some "Jazz\n") none] } .yaml).toList) ≠
        .ok { name := "Evening", steps := [.play (some "Jazz\n") none] }) ∧
    (Document.parse (Text.Utf8.encode
      "name: Evening\nsteps:\n- query: |+\n    Jazz\n\n  type: play\n".toList) =
        .ok { name := "Evening", steps := [.play (some "Jazz\n\n") none] } ∧
    Document.parse (Text.Utf8.encode (Document.print
      { name := "Evening", steps := [.play (some "Jazz\n\n") none] } .yaml).toList) ≠
        .ok { name := "Evening", steps := [.play (some "Jazz\n\n") none] }) ∧
    Document.parse (Text.Utf8.encode
      "name: Evening\nsteps:\n- query: Jazz\u00a0\n  type: play\n".toList) =
        .ok { name := "Evening", steps := [.play (some "Jazz\u00a0") none] } ∧
    Document.parse (Text.Utf8.encode (Document.print
      { name := "Evening", steps := [.play (some "Jazz\u00a0") none] } .yaml).toList) ≠
        .ok { name := "Evening", steps := [.play (some "Jazz\u00a0") none] } := by
  decide +kernel

end RoomAudio
