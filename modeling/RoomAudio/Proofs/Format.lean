import RoomAudio.Data
import RoomAudio.Format
import RoomAudio.Text.Digits

/-!
# Reading in any format

Two things that can be said about readers without knowing their format: what holds of everything
that they may return, and that they read back plain data, provided that the format does so for
single values.

## Main definitions

* `Returning` — the monads in which it can be said what a computation may return.
* `Format.ReadsBack` — a format reads single values back from the trees of plain data.
-/

namespace RoomAudio

/-! ## What may be returned -/

/-- Monads in which it can be said what a computation may return: what it returns comes from its
parts, and a fault returns nothing. -/
class Returning (m : Type → Type) [Monad m] [MonadExceptOf Fault m] where
  /-- The computation may return the value. -/
  MayReturn {α : Type} : m α → α → Prop
  eq_of_pure {α : Type} {a b : α} : MayReturn (pure a) b → b = a
  exists_of_bind {α β : Type} {x : m α} {f : α → m β} {b : β} :
    MayReturn (x >>= f) b → ∃ a, MayReturn x a ∧ MayReturn (f a) b
  not_of_throw {α : Type} {fault : Fault} {a : α} : ¬ MayReturn (throw fault : m α) a

open Returning (MayReturn)

instance : Returning (Except Fault) where
  MayReturn x a := x = .ok a
  eq_of_pure := by
    rintro α a b ⟨⟩
    rfl
  exists_of_bind := by
    intro α β x f b h
    cases x with
    | error fault => cases h
    | ok a => exact ⟨a, rfl, h⟩
  not_of_throw := by
    rintro α fault a ⟨⟩

instance {τ : Type} : Returning (StateT τ (Except Fault)) where
  MayReturn x a := ∃ s t, x s = .ok (a, t)
  eq_of_pure := by
    rintro α a b ⟨s, t, ⟨⟩⟩
    rfl
  exists_of_bind := by
    rintro α β x f b ⟨s, t, h⟩
    change (x s >>= fun p => f p.1 p.2) = _ at h
    cases first : x s with
    | error fault =>
      rw [first] at h
      cases h
    | ok p =>
      rw [first] at h
      exact ⟨p.1, ⟨s, p.2, first⟩, p.2, t, h⟩
  not_of_throw := by
    rintro α fault a ⟨s, t, ⟨⟩⟩

section Returned

variable {m : Type → Type} [Monad m] [MonadExceptOf Fault m] [Returning m] {α β : Type}

/-- What holds whatever a part returns holds of what is made of it. -/
theorem mayReturn_made {P : β → Prop} {x : m α} {make : α → β} {b : β}
    (h : MayReturn (do return make (← x)) b) (each : ∀ a, MayReturn x a → P (make a)) : P b := by
  obtain ⟨a, returned, h⟩ := Returning.exists_of_bind h
  rw [Returning.eq_of_pure h]
  exact each a returned

/-- A property that every step keeps holds of the outcome. -/
theorem mayReturn_foldlM {P : β → Prop} {f : β → α → m β}
    (step : ∀ b a c, P b → MayReturn (f b a) c → P c) {l : List α} {b c : β} (start : P b)
    (h : MayReturn (l.foldlM f b) c) : P c := by
  induction l generalizing b with
  | nil =>
    obtain rfl := Returning.eq_of_pure h
    exact start
  | cons a l ih =>
    rw [List.foldlM_cons] at h
    obtain ⟨b', first, rest⟩ := Returning.exists_of_bind h
    exact ih (step b a b' start first) rest

/-- What is returned for a list is returned for its items. -/
theorem mayReturn_mapM {P : β → Prop} {f : α → m β} [LawfulMonad m]
    (each : ∀ a b, MayReturn (f a) b → P b) {l : List α} {results : List β}
    (h : MayReturn (l.mapM f) results) : ∀ b ∈ results, P b := by
  induction l generalizing results with
  | nil =>
    rw [List.mapM_nil] at h
    obtain rfl := Returning.eq_of_pure h
    simp
  | cons a l ih =>
    rw [List.mapM_cons] at h
    obtain ⟨b, first, h⟩ := Returning.exists_of_bind h
    obtain ⟨others, rest, h⟩ := Returning.exists_of_bind h
    obtain rfl := Returning.eq_of_pure h
    intro c mem
    rcases List.mem_cons.mp mem with rfl | mem
    · exact each a _ first
    · exact ih rest c mem

namespace Format

variable {ν : Type} {F : Format ν m}

/-- What holds at the start and is kept by every field holds when all fields have been read. -/
theorem mayReturn_fields {P : β → Prop} {names : List String} {step : β → String → ν → m β}
    (each : ∀ b name node c, P b → MayReturn (step b name node) c → P c) {start b : β} {node : ν}
    (begun : P start) (h : MayReturn (F.fields names step start node) b) : P b := by
  obtain ⟨members, -, h⟩ := Returning.exists_of_bind h
  refine mayReturn_foldlM (fun b a c kept step => ?_) begun h
  obtain ⟨name, -, step⟩ := Returning.exists_of_bind step
  exact each b name a.2 c kept step

/-- A field that is read is read by its reader. -/
theorem mayReturn_once {before after : Option α} {read : m α}
    (h : MayReturn (once before read) after) : ∃ a, after = some a ∧ MayReturn read a := by
  unfold once at h
  split at h
  · exact absurd h Returning.not_of_throw
  · obtain ⟨a, returned, h⟩ := Returning.exists_of_bind h
    exact ⟨a, Returning.eq_of_pure h, returned⟩

theorem mayReturn_option {read : ν → m α} {node : ν} {a : α}
    (h : MayReturn (F.option read node) (some a)) : ∃ node, MayReturn (read node) a := by
  obtain ⟨found, -, h⟩ := Returning.exists_of_bind h
  cases found with
  | none => cases Returning.eq_of_pure h
  | some inner =>
    obtain ⟨b, returned, h⟩ := Returning.exists_of_bind h
    cases Returning.eq_of_pure h
    exact ⟨inner, returned⟩

theorem mayReturn_list [LawfulMonad m] {P : α → Prop} {read : ν → m α}
    (each : ∀ node a, MayReturn (read node) a → P a) {node : ν} {l : List α}
    (h : MayReturn (F.list read node) l) : ∀ a ∈ l, P a := by
  obtain ⟨items, -, h⟩ := Returning.exists_of_bind h
  exact mayReturn_mapM each h

end Format

end Returned

/-! ## Reading back -/

/-- A format reads single values back from the trees of plain data. -/
structure Format.ReadsBack {ν : Type} {m : Type → Type} [Monad m] (F : Format ν m)
    (tree : Data → ν) : Prop where
  text : ∀ s, F.text (tree (.text s)) = pure s
  int : ∀ i, Text.isInt64 i = true → F.int (tree (.int i)) = pure i
  bool : ∀ b, F.bool (tree (.bool b)) = pure b
  optional : ∀ d, d ≠ .null → F.optional (tree d) = pure (some (tree d))
  items : ∀ items, F.items (tree (.list items)) = pure (items.map tree)
  members : ∀ names fields, F.members names (tree (.record fields)) =
    pure (fields.map fun field => (tree (.text field.1), tree field.2))
  textOrOther : ∀ s, F.textOrOther (tree (.text s)) = pure (some s)

section ReadBack

variable {m : Type → Type} [Monad m] [LawfulMonad m]

section Fields

variable {β δ : Type} {step : δ → String × Data → m δ}

/-- Reading goes on where the fields before have led. -/
theorem foldlM_append_pure {l l' : List (String × Data)} {a b c : δ}
    (first : l.foldlM step a = pure b) (next : l'.foldlM step b = pure c) :
    (l ++ l').foldlM step a = pure c := by
  rw [List.foldlM_append, first, pure_bind, next]

theorem foldlM_cons_pure {field : String × Data} {l : List (String × Data)} {a b c : δ}
    (first : step a field = pure b) (next : l.foldlM step b = pure c) :
    (field :: l).foldlM step a = pure c := by
  rw [List.foldlM_cons, first, pure_bind, next]

/-- A field that is left out sets nothing. -/
theorem foldlM_unless {c : Prop} [Decidable c] {field : String × Data} {b : β}
    (set : Option β → δ) (reads : step (set none) field = pure (set (some b))) :
    (if c then [] else [field]).foldlM step (set none) = pure (set (if c then none else some b)) := by
  split
  · rfl
  · rw [List.foldlM_cons, reads, pure_bind, List.foldlM_nil]

/-- A field that is written or left out is read back. -/
theorem foldlM_optionalField {name : String} {value : Option β} {write : β → Data}
    (set : Option (Option β) → δ)
    (reads : ∀ b, value = some b → step (set none) (name, write b) = pure (set (some (some b)))) :
    (Data.optionalField name value write).foldlM step (set none) = pure (set (value.map some)) := by
  cases value with
  | none => rfl
  | some b =>
    rw [Data.optionalField, List.foldlM_cons, reads b rfl, pure_bind, List.foldlM_nil]
    rfl

/-- Items that are read back one by one are read back together. -/
theorem mapM_map_pure {α β : Type} {f : α → m β} {g : β → α} {l : List β}
    (h : ∀ b ∈ l, f (g b) = pure b) : (l.map g).mapM f = pure l := by
  induction l with
  | nil => rfl
  | cons b l ih =>
    rw [List.map_cons, List.mapM_cons, h b (by simp), ih fun c mem => h c (by simp [mem])]
    simp only [pure_bind]

end Fields

namespace Format.ReadsBack

variable {ν : Type} {F : Format ν m} {tree : Data → ν} (reads : F.ReadsBack tree)
include reads

/-- Fields are read in the order in which they were written. -/
theorem fields {δ : Type} (names : List String) (step : δ → String → ν → m δ) (start : δ)
    (fields : List (String × Data)) :
    F.fields names step start (tree (.record fields)) =
      fields.foldlM (fun draft field => step draft field.1 (tree field.2)) start := by
  rw [Format.fields, reads.members, pure_bind, List.foldlM_map]
  simp only [reads.text, pure_bind]

theorem option {α : Type} {read : ν → m α} {d : Data} {a : α} (some : d ≠ .null)
    (h : read (tree d) = pure a) : F.option read (tree d) = pure (.some a) := by
  rw [Format.option, reads.optional d some, pure_bind]
  exact (congrArg (· >>= _) h).trans (pure_bind a _)

/-- A list is read back if its items are. -/
theorem list {α : Type} {read : ν → m α} {write : α → Data} {l : List α}
    (h : ∀ a ∈ l, read (tree (write a)) = pure a) :
    F.list read (tree (.list (l.map write))) = pure l := by
  rw [Format.list, reads.items, pure_bind, List.map_map]
  exact mapM_map_pure h

theorem texts (l : List String) : F.list F.text (tree (Data.texts l)) = pure l :=
  reads.list fun s _ => reads.text s

theorem version [MonadExceptOf Fault m] (s : String) : F.version (tree (.text s)) = pure s := by
  rw [Format.version, reads.textOrOther, pure_bind]

end Format.ReadsBack

end ReadBack

end RoomAudio
