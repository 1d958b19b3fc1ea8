/-!
# Computations that can refuse

When a computation goes well that is made of steps, each of which can refuse to go on, and what it
refuses with.

## Main definitions

* `except_bind_ok_iff` — both steps go well.
* `except_bind_error_iff` — one of them refuses.
* `refuse_bind_ok_iff` — nothing is in the way of the next step.
-/

namespace RoomAudio

variable {ε α β : Type}

theorem except_bind_ok_iff (x : Except ε α) (f : α → Except ε β) (b : β) :
    (x >>= f) = .ok b ↔ ∃ a, x = .ok a ∧ f a = .ok b := by
  cases x with
  | error e => simp [bind, Except.bind]
  | ok a => simp [bind, Except.bind]

theorem except_bind_error_iff (x : Except ε α) (f : α → Except ε β) (problem : ε) :
    (x >>= f) = .error problem ↔ x = .error problem ∨ ∃ a, x = .ok a ∧ f a = .error problem := by
  cases x with
  | error e => simp [bind, Except.bind]
  | ok a => simp [bind, Except.bind]

/-- A check that is followed by others. -/
theorem check_bind_ok_iff (x : Except ε Unit) (f : Unit → Except ε β) (b : β) :
    (x >>= f) = .ok b ↔ x = .ok () ∧ f () = .ok b := by
  rw [except_bind_ok_iff]
  exact ⟨fun ⟨(), h⟩ => h, fun h => ⟨(), h⟩⟩

/-- A condition that must not hold, followed by other checks. -/
theorem refuse_bind_ok_iff {c : Prop} [Decidable c] (problem : ε) (f : Unit → Except ε β) (b : β) :
    (if c then throw problem >>= f else f ()) = .ok b ↔ ¬c ∧ f () = .ok b := by
  have refused : (throw problem >>= f : Except ε β) = .error problem := rfl
  split
  · rename_i holds
    simp [refused, holds]
  · rename_i fails
    simp [fails]

theorem map_eq_error_iff (f : α → β) (x : Except ε α) (problem : ε) :
    x.map f = .error problem ↔ x = .error problem := by
  cases x <;> simp [Except.map]

theorem map_eq_ok_iff (f : α → β) (x : Except ε α) (b : β) :
    x.map f = .ok b ↔ ∃ a, x = .ok a ∧ f a = b := by
  cases x <;> simp [Except.map]

theorem mapError_eq_ok_iff {δ : Type} (f : ε → δ) (x : Except ε α) (a : α) :
    x.mapError f = .ok a ↔ x = .ok a := by
  cases x with
  | error e =>
    constructor
    · rintro ⟨⟩
    · rintro ⟨⟩
  | ok b =>
    constructor
    · rintro ⟨⟩
      rfl
    · rintro ⟨⟩
      rfl

theorem mapError_eq_error_iff {δ : Type} (f : ε → δ) (x : Except ε α) (problem : δ) :
    x.mapError f = .error problem ↔ ∃ e, x = .error e ∧ f e = problem := by
  cases x with
  | error e =>
    constructor
    · rintro ⟨⟩
      exact ⟨e, rfl, rfl⟩
    · rintro ⟨_, ⟨⟩, rfl⟩
      rfl
  | ok b =>
    constructor
    · rintro ⟨⟩
    · rintro ⟨_, ⟨⟩, _⟩

theorem isOk_iff {x : Except ε α} : x.isOk = true ↔ ∃ a, x = .ok a := by
  cases x <;> simp [Except.isOk, Except.toBool]

theorem toOption_eq_some_iff {x : Except ε α} {a : α} : x.toOption = some a ↔ x = .ok a := by
  cases x <;> simp [Except.toOption]

end RoomAudio
