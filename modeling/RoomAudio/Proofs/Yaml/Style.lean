import RoomAudio.Yaml.Quoting

/-!
# The style of a text

## Main definitions

* `Yaml.Styled` — what has to hold of a text that is written in a style.
* `Yaml.styled_styleOf` — it holds of the style that is chosen.
-/

namespace RoomAudio.Yaml

inductive Styled (l : List Char) : Style → Prop where
  | plain (meaning : Meaning.ofPlain l = .text) (allowed : allowsPlain l = true) : Styled l .plain
  | singleQuoted (noFeed : '\n' ∉ l) (allowed : allowsSingleQuoted l = true) :
      Styled l .singleQuoted
  | doubleQuoted : Styled l .doubleQuoted
  | literal (feed : '\n' ∈ l) (allowed : allowsLiteral l = true) : Styled l .literal

theorem styled_styleOf (l : List Char) : Styled l (styleOf l) := by
  unfold styleOf
  split
  · rename_i feed
    split
    · exact .literal (by simpa using feed) ‹_›
    · exact .doubleQuoted
  · rename_i noFeed
    split
    · rename_i plain
      simp only [Bool.and_eq_true, decide_eq_true_eq] at plain
      exact .plain plain.1.1 plain.2
    · split
      · exact .singleQuoted (by simpa using noFeed) ‹_›
      · exact .doubleQuoted

/-- An empty text is written in quotes. -/
theorem Styled.ne_nil {l : List Char} {style : Style} (h : Styled l style)
    (bare : style = .plain ∨ style = .literal) : l ≠ [] := by
  rintro rfl
  cases h with
  | plain meaning => exact absurd meaning (by decide)
  | literal feed => exact absurd feed List.not_mem_nil
  | _ => simp at bare

end RoomAudio.Yaml
