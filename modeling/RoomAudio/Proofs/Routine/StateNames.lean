import RoomAudio.Proofs.Refusal
import RoomAudio.Proofs.Text.Case
import RoomAudio.Routine.Resolution

/-!
# Names of states

A state is named by the author of a routine and by the reports of the player, and the two are read
in different ways: one looks past the case of ASCII letters, the other one lower-cases the whole
text. Both find the same state in the same text, since none of the names has a `k`.

## Main definitions

* `PlaybackState.ofName?_eq_some_iff` — what an author can write.
* `PlaybackState.isNamedBy_iff_ofName?` — the player can report just the same.
-/

namespace RoomAudio

namespace PlaybackState

variable {state : PlaybackState} {text : String}

/-- An author names a state in any case of the ASCII letters. -/
theorem ofName?_eq_some_iff :
    ofName? text = some state ↔ Text.asciiLower (Text.trim text) = state.name := by
  constructor
  · intro h
    simp only [ofName?] at h
    split at h
    · cases h
      assumption
    split at h
    · cases h
      assumption
    split at h
    · cases h
      assumption
    · cases h
  · intro h
    cases state <;> simp [ofName?, h, name]

/-- A state is named by its own name in any case. -/
theorem isNamedBy_eq_true_iff :
    state.isNamedBy text = true ↔ Text.lower (Text.trim text) = state.name :=
  beq_iff_eq

/-- A report names the state that an author names with the same text. So a text names one state at
most, and a step waits for the state that its own text would report. -/
theorem isNamedBy_iff_ofName? (text : String) :
    (∀ state : PlaybackState, state.isNamedBy text = true ↔ ofName? text = some state) ∧
    (∀ state other : PlaybackState,
      state.isNamedBy text = true → other.isNamedBy text = true → state = other) ∧
    ∀ timeout defaults path state label timeoutMs,
      (Step.wait text timeout).resolve defaults path = .ok (.wait state label timeoutMs) →
        ∀ other : PlaybackState, other.isNamedBy text = true ↔ other = state := by
  have agree (state : PlaybackState) :
      state.isNamedBy text = true ↔ ofName? text = some state := by
    have plain : Text.IsAscii state.name ∧ 'k' ∉ state.name.toList := by cases state <;> decide
    rw [isNamedBy_eq_true_iff, ofName?_eq_some_iff]
    exact Text.lower_eq_iff_asciiLower_eq plain.1 plain.2
  refine ⟨agree, ?_, ?_⟩
  · intro state other named named'
    have same := ((agree state).mp named).symm.trans ((agree other).mp named')
    exact Option.some.inj same
  · intro timeout defaults path state label timeoutMs resolved other
    have parsed : ofName? text = some state := by
      simp only [Step.resolve] at resolved
      split at resolved
      · cases resolved
      split at resolved
      · cases resolved
      · cases resolved
        assumption
    rw [agree, parsed, Option.some.injEq, eq_comm]

/-- The same texts from an author and in a report, with capital letters and blank ends. -/
theorem isNamedBy_iff_ofName?_paused :
    playing.isNamedBy " PLAYING\n" = true ∧
      ∀ other : PlaybackState, other.isNamedBy "\tPaused " = true ↔ other = paused := by
  have resolved : (Step.wait "\tPaused " "5s").resolve {} [] = .ok (.wait paused "5s" 5000) :=
    toOption_eq_some_iff.mp (by decide +kernel)
  exact ⟨((isNamedBy_iff_ofName? " PLAYING\n").1 playing).mpr (by decide +kernel),
    (isNamedBy_iff_ofName? "\tPaused ").2.2 "5s" {} [] paused "5s" 5000 resolved⟩

end PlaybackState

end RoomAudio
