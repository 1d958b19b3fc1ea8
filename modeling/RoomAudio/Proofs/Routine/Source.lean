import RoomAudio.Proofs.Json.Records
import RoomAudio.Proofs.Refusal
import RoomAudio.Proofs.Routine.Record
import RoomAudio.Proofs.Text.Blank
import RoomAudio.Proofs.Text.Utf8
import RoomAudio.Routine.Preset
import RoomAudio.Routine.Source

/-!
# Routines that were read

Whatever file a routine was read from, it can be written as JSON and read again.

## Main definitions

* `Document.readable_of_parse` — a routine that was read from a file is readable.
* `json_round_trip` — it is read back from the JSON text that is written for it.
-/

namespace RoomAudio

open Returning (MayReturn)

/-! ## What the formats return -/

theorem Json.Number.isInt64_of_int? {n : Number} {i : Int} (h : n.int? = some i) :
    Text.isInt64 i = true := by
  unfold int? at h
  split at h
  · cases h
  dsimp only at h
  split at h
  · cases h
  generalize (if n.negative then _ else _ : Int) = j at h
  split at h
  · rename_i small
    obtain rfl := Option.some.inj h
    exact small
  · cases h

theorem Json.readsWords : Json.format.ReadsWords := by
  intro node i read
  change Tree.int? node = .ok i at read
  unfold Tree.int? at read
  split at read
  · split at read
    · rename_i value
      cases read
      exact Number.isInt64_of_int? value
    · cases read
  · cases read

theorem Yaml.readsWords (s : Yaml.Source) : (Yaml.format s).ReadsWords := by
  intro node i read
  obtain ⟨inner, -, read⟩ := Returning.exists_of_bind read
  split at read
  · rename_i tag style text
    split at read
    · rename_i j found
      obtain rfl := Returning.eq_of_pure read
      have fits := (Option.filter_eq_some_iff.mp found).2
      rw [Bool.and_eq_true] at fits
      exact fits.2
    · exact absurd read Returning.not_of_throw
  · exact absurd read Returning.not_of_throw

namespace Document

/-- What is decoded can be written again. -/
theorem readable_of_decode_json {text : List Char} {d : Document}
    (h : Json.decode (read Json.format) text = .ok d) : d.Readable := by
  rw [Json.decode, except_bind_ok_iff] at h
  obtain ⟨d', returned, ends⟩ := h
  have same : d' = d := by
    split at ends
    · split at ends
      · exact Except.ok.inj ends
      · cases ends
    · cases ends
  rw [← same]
  exact readable_of_read Json.readsWords returned

theorem readable_of_decode_yaml {text : List Char} {d : Document}
    (h : Yaml.decode read text = .ok d) : d.Readable := by
  rw [Yaml.decode, except_bind_ok_iff] at h
  obtain ⟨⟨d', followed⟩, returned, ends⟩ := h
  have same : d' = d := by
    dsimp only at ends
    split at ends
    · exact Except.ok.inj ends
    · cases ends
  rw [← same]
  exact readable_of_read (Yaml.readsWords _) ⟨0, followed, returned⟩

/-- What is read from a file is readable. -/
theorem readable_of_parse {bytes : List UInt8} {d : Document} (h : parse bytes = .ok d) :
    d.Readable := by
  unfold parse at h
  split at h
  · cases h
  · unfold ofChars at h
    split at h
    · cases h
    · exact readable_of_decode_json ((mapError_eq_ok_iff _ _ d).mp h)
    · exact readable_of_decode_yaml ((mapError_eq_ok_iff _ _ d).mp h)

/-! ## Reading back JSON -/

theorem prettyFields_eq_append (depth : Nat) (fields : List (String × Data)) :
    ∃ l, Json.prettyFields depth fields = l ++ ['\x7d'] := by
  induction fields with
  | nil => exact ⟨_, rfl⟩
  | cons field fields ih =>
    obtain ⟨l, same⟩ := ih
    rw [Json.prettyFields, same, ← List.append_assoc]
    exact ⟨_, rfl⟩

/-- The text of a routine begins and ends with a brace. -/
theorem toList_pretty (d : Document) :
    ∃ l, (Json.pretty d.toData).toList = '\x7b' :: l ++ ['\x7d'] := by
  obtain ⟨l, ends⟩ := prettyFields_eq_append 0 (("name", .text d.name) ::
    Data.optionalField "defaults" d.defaults Defaults.toData ++
    [("steps", .list (d.steps.map Step.toData))])
  have written : (Json.pretty d.toData).toList = Json.prettyChars 0 d.toData := by
    simp [Json.pretty]
  rw [written, toData, List.cons_append, Json.prettyChars, List.cons_append, ends,
    ← List.append_assoc]
  exact ⟨_, rfl⟩

/-- A readable routine is read back from its indented JSON form. -/
theorem parse_print_json {d : Document} (readable : d.Readable) :
    parse (Text.Utf8.encode (d.print .json).toList) = .ok d := by
  obtain ⟨l, braces⟩ := toList_pretty d
  have printed : (d.print .json).toList = '\x7b' :: l ++ '\x7d' :: ['\n'] := by
    rw [print, String.toList_append, braces]
    simp
  have trimmed : Text.trimChars (d.print .json).toList = (Json.pretty d.toData).toList := by
    rw [printed, braces]
    exact Text.trimChars_of_ends l (by decide) (by decide) (by decide)
  have decoded : Json.decode (read Json.format) (Json.pretty d.toData).toList = .ok d := by
    rw [Json.decode_pretty]
    exact read_toData Json.readsBack readable
  rw [parse, Text.Utf8.decode_encode]
  dsimp only
  rw [trimmed, braces]
  rw [braces] at decoded
  exact (mapError_eq_ok_iff _ _ d).mpr decoded

end Document

/-- A routine that was read from a file is read back from the JSON text that is written for it, and
written again as the same text. -/
theorem json_round_trip {bytes : List UInt8} {d : Document} (h : Document.parse bytes = .ok d) :
    Document.parse (Text.Utf8.encode (d.print .json).toList) = .ok d ∧
    (Document.parse (Text.Utf8.encode (d.print .json).toList)).map (·.print .json) =
      .ok (d.print .json) := by
  have back := Document.parse_print_json (Document.readable_of_parse h)
  refine ⟨back, ?_⟩
  rw [back]
  rfl

/-- A file in YAML with a step of an unknown kind and a field that does not belong to it. -/
theorem json_round_trip_unknown_step :
    Document.parse (Text.Utf8.encode
      "name: Küche\nsteps:\n- type: lights\n  value: 9223372036854775807\n".toList) =
        .ok { name := "Küche", steps := [.unsupported "lights"] } ∧
    Document.parse (Text.Utf8.encode (Document.print
      { name := "Küche", steps := [.unsupported "lights"] } .json).toList) =
        .ok { name := "Küche", steps := [.unsupported "lights"] } := by
  have source : Document.parse (Text.Utf8.encode
      "name: Küche\nsteps:\n- type: lights\n  value: 9223372036854775807\n".toList) =
        .ok { name := "Küche", steps := [.unsupported "lights"] } := by decide +kernel
  exact ⟨source, (json_round_trip source).1⟩

end RoomAudio
