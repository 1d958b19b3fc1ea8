import RoomAudio.Proofs.Routine.Yaml
import RoomAudio.Proofs.Yaml.Complete
import RoomAudio.Proofs.Yaml.Indentation.Run
import RoomAudio.Proofs.Yaml.Margin.Front

/-!
# Trimmed sources

What is blank at the ends of a source is taken off before it is read. A YAML text keeps its meaning
if its lines hang on the first one and no scalar without quotes ends with what is taken off.

## Main definitions

* `Yaml.keepsFront`, `Yaml.losesEnd` — what becomes of the two ends of a text.
* `Yaml.decode_trimChars` — a text that is decoded is decoded to the same without its blank ends.
* `trimming_keeps_routine` — the routine of a YAML source is what the whole text is decoded to.
-/

namespace RoomAudio

open Text (isBlank trimChars)

namespace Yaml

/-- How deep the first line that is not blank is indented. -/
def firstIndent (text : List Char) : Nat :=
  ((text.takeWhile isBlank).rtakeWhile (· == ' ')).length

/-- Whether a text begins as it does without what is blank in front of it: lines of spaces stand
there, and what follows hangs on its first line if that line is indented. -/
def keepsFront (text : List Char) : Bool :=
  areBlankLines ((text.takeWhile isBlank).rdropWhile (· == ' ')) &&
    (firstIndent text == 0 ||
      let indented := indentation (firstIndent text) ++ trimChars text
      (Scanner.start indented).hangs (firstIndent text) .first (indented.length + 2))

/-- Whether the last scalar of a text is not in quotes and ends with a blank character that is taken
off: nothing but blank characters is left behind it. -/
def losesEnd (text : List Char) : Bool :=
  ((Scanner.start text).final (text.length + 2)).any Scanner.isLosing

/-- What is blank in front of a text is made up of whole lines and the indentation of the first
line. -/
theorem takeWhile_isBlank_eq (text : List Char) :
    text.takeWhile isBlank =
      (text.takeWhile isBlank).rdropWhile (· == ' ') ++ indentation (firstIndent text) := by
  have spaces : (text.takeWhile isBlank).rtakeWhile (· == ' ') = indentation (firstIndent text) :=
    List.eq_replicate_of_mem fun c mem => by simpa using List.mem_rtakeWhile_imp mem
  rw [← spaces]
  exact List.rdropWhile_append_rtakeWhile.symm

/-- The events are those of the text without its blank ends. -/
theorem eventsOf_trimChars {text : List Char} {c : Char} (first : (trimChars text).head? = some c)
    (front : keepsFront text = true) (back : losesEnd text = false)
    (whole : (scan text).2 = true) (ends : Event.streamEnd ∈ eventsOf (scan text).1) :
    eventsOf (scan (trimChars text)).1 = eventsOf (scan text).1 := by
  obtain ⟨visible, visible'⟩ :=
    (Text.trimChars_eq_self_iff (trimChars text)).mp (Text.trimChars_trimChars text)
  obtain ⟨rest, core⟩ := List.head?_eq_some_iff.mp first
  have blank : ∀ c ∈ (text.dropWhile isBlank).rtakeWhile isBlank, isBlank c = true :=
    fun c mem => List.mem_rtakeWhile_imp mem
  have margins := Text.append_trimChars_append text
  rw [takeWhile_isBlank_eq, List.append_assoc, ← List.append_assoc (indentation _)] at margins
  rw [keepsFront, Bool.and_eq_true, Bool.or_eq_true] at front
  obtain ⟨lines, hangs⟩ := front
  have apart : (indentation (firstIndent text) ++ trimChars text ++
      (text.dropWhile isBlank).rtakeWhile isBlank).head? ≠ some '\n' := by
    rw [core]
    cases firstIndent text with
    | zero =>
      rintro starts
      obtain rfl : c = '\n' := Option.some.inj starts
      exact absurd (visible _ first) (by decide)
    | succ n => simp [indentation, List.replicate_succ]
  have ends' : EndsVisibly (indentation (firstIndent text) ++ trimChars text) := by
    rw [EndsVisibly, List.getLast?_append_of_ne_nil _ (by rw [core]; simp)]
    exact visible'
  have kept := scan_margin lines apart ends' blank
  rw [margins] at kept
  have kept := kept whole back
  rw [← kept] at ends ⊢
  rcases hangs with none | hangs
  · rw [beq_iff_eq.mp none]
    rfl
  · by_cases wide : 0 < firstIndent text
    · exact eventsOf_scan_indent wide hangs (kept ▸ whole) ends
    · rw [Nat.eq_zero_of_not_pos wide]
      rfl

/-- A text that is decoded is decoded to the same without its blank ends. -/
theorem decode_trimChars {α : Type} {read : Format Node Reading → Node → Reading α}
    {text : List Char} {c : Char} {a : α} (first : (trimChars text).head? = some c)
    (front : keepsFront text = true) (back : losesEnd text = false)
    (found : decode read text = .ok a) : decode read (trimChars text) = .ok a := by
  have events := eventsOf_trimChars first front back (scan_of_decode found)
    (streamEnd_mem_of_build (whole_of_decode found))
  rw [decode, Source.ofText, events]
  exact found

example : keepsFront "  steps:\n  - type: pause\n".toList = true := by decide +kernel

end Yaml

/-- The routine of a YAML source is what the whole text is decoded to. -/
theorem trimming_keeps_routine {bytes : List UInt8} {text : List Char} {c : Char} {d : Document}
    (utf8 : Text.Utf8.decode bytes = .ok text) (first : text.find? (!isBlank ·) = some c)
    (yaml : c ≠ '\x7b') (decoded : Yaml.decode Document.read text = .ok d)
    (front : Yaml.keepsFront text = true) (back : Yaml.losesEnd text = false) :
    Document.parse bytes = .ok d := by
  rw [← Text.head?_trimChars] at first
  have trimmed := Yaml.decode_trimChars first front back decoded
  rw [Document.parse, utf8]
  dsimp only
  generalize trimChars text = core at first trimmed ⊢
  obtain ⟨rest, rfl⟩ := List.head?_eq_some_iff.mp first
  unfold Document.ofChars
  split
  · rename_i nothing
    cases nothing
  · rename_i brace
    cases brace
    exact absurd rfl yaml
  · exact (mapError_eq_ok_iff _ _ d).mpr trimmed

/-- An indented line that the next one hangs on, with blank lines around them. -/
theorem trimming_keeps_evening :
    Document.parse (Text.Utf8.encode " \n  name: Jazz\n    at night\n \n".toList) =
      .ok { name := "Jazz at night" } :=
  trimming_keeps_routine (Text.Utf8.decode_encode _) (c := 'n') (by decide +kernel) (by decide)
    (by decide +kernel) (by decide +kernel) (by decide +kernel)

/-- What is taken off may belong to the text: the indentation of the first line, the line break at
the end of a block, or a blank character that is no space. -/
theorem trimming_changes_routine :
    (Yaml.decode Document.read "  name: Jazz\n  version: '1'\n  steps: []\n".toList =
        .ok { name := "Jazz", version := "1", steps := [] } ∧
      Document.parse (Text.Utf8.encode
        "  name: Jazz\n  version: '1'\n  steps: []\n".toList) ≠
          .ok { name := "Jazz", version := "1", steps := [] }) ∧
    (Yaml.decode Document.read "version: '1'\nsteps: []\nname: |\n  Jazz\n".toList =
        .ok { name := "Jazz\n", version := "1", steps := [] } ∧
      Document.parse (Text.Utf8.encode
        "version: '1'\nsteps: []\nname: |\n  Jazz\n".toList) ≠
          .ok { name := "Jazz\n", version := "1", steps := [] }) ∧
    (Yaml.decode Document.read "version: '1'\nsteps: []\nname: Jazz\u00a0".toList =
        .ok { name := "Jazz\u00a0", version := "1", steps := [] } ∧
      Document.parse (Text.Utf8.encode
        "version: '1'\nsteps: []\nname: Jazz\u00a0".toList) ≠
          .ok { name := "Jazz\u00a0", version := "1", steps := [] }) := by
  decide +kernel

end RoomAudio
