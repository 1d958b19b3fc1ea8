import RoomAudio.Proofs.Format
import RoomAudio.Routine.Record

/-!
# Reading back routines

Not every routine can come from a file: a step of an unsupported kind never has the name of a
supported one, and numbers fit into 64 bits. What a reader returns is such a routine, and each of
these is read back, in any format, from the data that is written for it.

## Main definitions

* `Document.Readable` — the routines that can be read.
* `Document.readable_of_read` — what is read is readable.
* `Document.read_toData` — what is readable is read back.
-/

namespace RoomAudio

open Returning (MayReturn)

/-! ## Readable routines -/

def Defaults.Readable (d : Defaults) : Prop := ∀ v, d.volume = some v → Text.isInt64 v = true

def Defaults.Draft.Readable (d : Draft) : Prop :=
  ∀ v, d.volume = some (some v) → Text.isInt64 v = true

namespace Step

/-- The step is told by the fields that belong to its kind, and numbers fit into 64 bits. -/
structure Readable (s : Step) : Prop where
  ofRecord_toRecord : ofRecord s.toRecord = s
  small : ∀ v, s.toRecord.value = some v → Text.isInt64 v = true

def Draft.Readable (d : Draft) : Prop := ∀ v, d.value = some (some v) → Text.isInt64 v = true

/-- A record with a small value makes a readable step. -/
theorem readable_ofRecord {r : Record} (small : ∀ v, r.value = some v → Text.isInt64 v = true) :
    (ofRecord r).Readable := by
  unfold ofRecord
  by_cases outSet : r.kind = "out.set"
  · rw [if_pos outSet]
    exact ⟨rfl, by simp [toRecord]⟩
  by_cases play : r.kind = "play"
  · rw [if_neg outSet, if_pos play]
    exact ⟨rfl, by simp [toRecord]⟩
  by_cases volumeSet : r.kind = "volume.set"
  · rw [if_neg outSet, if_neg play, if_pos volumeSet]
    exact ⟨rfl, small⟩
  by_cases wait : r.kind = "wait"
  · rw [if_neg outSet, if_neg play, if_neg volumeSet, if_pos wait]
    exact ⟨rfl, by simp [toRecord]⟩
  by_cases transport : r.kind = "transport"
  · rw [if_neg outSet, if_neg play, if_neg volumeSet, if_neg wait, if_pos transport]
    exact ⟨rfl, by simp [toRecord]⟩
  · rw [if_neg outSet, if_neg play, if_neg volumeSet, if_neg wait, if_neg transport]
    refine ⟨?_, by simp [toRecord]⟩
    rw [toRecord, ofRecord, if_neg outSet, if_neg play, if_neg volumeSet, if_neg wait,
      if_neg transport]

end Step

structure Document.Readable (d : Document) : Prop where
  defaults : ∀ defaults, d.defaults = some defaults → defaults.Readable
  steps : ∀ s ∈ d.steps, s.Readable

structure Document.Draft.Readable (d : Draft) : Prop where
  defaults : ∀ defaults, d.defaults = some (some defaults) → defaults.Readable
  steps : ∀ steps, d.steps = some steps → ∀ s ∈ steps, s.Readable

/-! ## What is read is readable -/

section Returned

variable {m : Type → Type} [Monad m] [MonadExceptOf Fault m] [Returning m] {ν : Type}
  {F : Format ν m}

def Format.ReadsWords (F : Format ν m) : Prop :=
  ∀ node i, MayReturn (F.int node) i → Text.isInt64 i = true

variable (words : F.ReadsWords)
include words

theorem Format.ReadsWords.option {node : ν} {before after : Option (Option Int)}
    (h : MayReturn (Format.once before (F.option F.int node)) after) :
    ∀ v, after = some (some v) → Text.isInt64 v = true := by
  intro v same
  obtain ⟨a, rfl, returned⟩ := Format.mayReturn_once h
  cases same
  obtain ⟨inner, read⟩ := Format.mayReturn_option returned
  exact words inner v read

/-- Defaults that were read can be read back. -/
theorem Defaults.readable_of_read {node : ν} {d : Defaults} (h : MayReturn (Defaults.read F node) d) :
    d.Readable := by
  refine mayReturn_made h fun draft read v volume => ?_
  refine Format.mayReturn_fields (P := Draft.Readable) ?_ (by simp [Draft.Readable]) read v
    (Option.join_eq_some_iff.mp volume)
  intro before name node after kept step
  unfold readField at step
  split at step
  · exact mayReturn_made step fun _ _ => kept
  split at step
  · exact mayReturn_made step fun _ _ => kept
  split at step
  · exact mayReturn_made step fun _ volume => words.option volume
  split at step
  · exact mayReturn_made step fun _ _ => kept
  · exact mayReturn_made step fun _ _ => kept

/-- Steps that were read can be read back. -/
theorem Step.readable_of_read {node : ν} {s : Step} (h : MayReturn (Step.read F node) s) :
    s.Readable := by
  refine mayReturn_made h fun draft read => readable_ofRecord fun v value => ?_
  refine Format.mayReturn_fields (P := Draft.Readable) ?_ (by simp [Draft.Readable]) read v
    (Option.join_eq_some_iff.mp value)
  intro before name node after kept step
  unfold readField at step
  split at step
  · exact mayReturn_made step fun _ _ => kept
  split at step
  · exact mayReturn_made step fun _ _ => kept
  split at step
  · exact mayReturn_made step fun _ _ => kept
  split at step
  · exact mayReturn_made step fun _ _ => kept
  split at step
  · exact mayReturn_made step fun _ value => words.option value
  split at step
  · exact mayReturn_made step fun _ _ => kept
  split at step
  · exact mayReturn_made step fun _ _ => kept
  split at step
  · exact mayReturn_made step fun _ _ => kept
  · exact mayReturn_made step fun _ _ => kept

/-- What is read is readable. -/
theorem Document.readable_of_read [LawfulMonad m] {node : ν} {d : Document}
    (h : MayReturn (Document.read F node) d) : d.Readable := by
  refine mayReturn_made h fun draft read => ?_
  have kept : draft.Readable := by
    refine Format.mayReturn_fields (P := Draft.Readable) ?_ ⟨by simp, by simp⟩ read
    intro before name node after kept step
    unfold readField at step
    split at step
    · exact mayReturn_made step fun _ _ => ⟨kept.defaults, kept.steps⟩
    split at step
    · exact mayReturn_made step fun _ _ => ⟨kept.defaults, kept.steps⟩
    split at step
    · refine mayReturn_made step fun _ first => ⟨fun defaults same => ?_, kept.steps⟩
      obtain ⟨a, rfl, returned⟩ := Format.mayReturn_once first
      cases same
      obtain ⟨inner, returned⟩ := Format.mayReturn_option returned
      exact Defaults.readable_of_read words returned
    split at step
    · refine mayReturn_made step fun _ first => ⟨kept.defaults, fun steps same => ?_⟩
      obtain ⟨a, rfl, returned⟩ := Format.mayReturn_once first
      cases same
      exact Format.mayReturn_list (fun _ _ => Step.readable_of_read words) returned
    · exact mayReturn_made step fun _ _ => kept
  refine ⟨fun defaults same => kept.defaults defaults (Option.join_eq_some_iff.mp same), ?_⟩
  cases steps : draft.steps with
  | none => simp [Draft.toDocument, steps]
  | some l =>
    rw [Draft.toDocument, steps]
    exact kept.steps l steps

end Returned

/-! ## What is readable is read back -/

section ReadBack

variable {m : Type → Type} [Monad m] [LawfulMonad m] [MonadExceptOf Fault m] {ν : Type}
  {F : Format ν m} {tree : Data → ν} (reads : F.ReadsBack tree)

namespace Defaults

/-- The draft that is left when all written fields have been read. -/
def draft (d : Defaults) : Draft where
  backend := if d.backend.isEmpty then none else some d.backend
  rooms := if d.rooms.isEmpty then none else some d.rooms
  volume := d.volume.map some
  shuffle := d.shuffle.map some

theorem toDefaults_draft (d : Defaults) : d.draft.toDefaults = d := by
  obtain ⟨backend, rooms, volume, shuffle⟩ := d
  have text : (if backend.isEmpty then none else some backend).getD "" = backend := by
    by_cases empty : backend = "" <;> simp [empty]
  have list : (if rooms.isEmpty then none else some rooms).getD [] = rooms := by
    cases rooms <;> simp
  have join {α : Type} (a : Option α) : (a.map some).join = a := by cases a <;> rfl
  simp only [draft, Draft.toDefaults, text, list, join]

include reads in
/-- Defaults are read back, whatever fields are left out. -/
theorem read_toData {d : Defaults} (readable : d.Readable) :
    Defaults.read F (tree d.toData) = pure d := by
  have fields : F.fields fieldNames (readField F) {} (tree d.toData) = pure d.draft := by
    rw [toData, reads.fields]
    refine foldlM_append_pure (foldlM_append_pure (foldlM_append_pure
      (foldlM_unless (fun backend => Draft.mk backend none none none) ?_)
      (foldlM_unless (fun rooms => { d.draft with rooms, volume := none, shuffle := none }) ?_))
      (foldlM_optionalField (fun volume => { d.draft with volume, shuffle := none }) ?_))
      (foldlM_optionalField (fun shuffle => { d.draft with shuffle }) ?_)
    · simp [readField, Format.once, reads.text]
    · simp [readField, Format.once, reads.texts]
    · intro v given
      simp [readField, Format.once, reads.option _ (reads.int v (readable v given))]
    · intro b _
      simp [readField, Format.once, reads.option _ (reads.bool b)]
  rw [Defaults.read, fields, pure_bind, toDefaults_draft]

end Defaults

namespace Step

/-- The draft that is left when all written fields have been read. -/
def Record.draft (r : Record) : Draft where
  kind := some r.kind
  rooms := r.rooms.map some
  query := r.query.map some
  playlistId := r.playlistId.map some
  value := r.value.map some
  state := r.state.map some
  timeout := r.timeout.map some
  action := r.action.map some

theorem Record.toRecord_draft (r : Record) : r.draft.toRecord = r := by
  have join {α : Type} (a : Option α) : (a.map some).join = a := by cases a <;> rfl
  simp only [draft, Draft.toRecord, join, Option.getD_some]

include reads in
/-- A readable step is read back. -/
theorem read_toData {s : Step} (readable : s.Readable) : Step.read F (tree s.toData) = pure s := by
  obtain ⟨same, small⟩ := readable
  rw [Step.read, toData]
  generalize s.toRecord = r at same small ⊢
  have fields : F.fields fieldNames (readField F) {} (tree r.toData) = pure r.draft := by
    rw [Record.toData, reads.fields]
    simp only [List.cons_append, List.append_assoc]
    refine foldlM_cons_pure (b := { kind := some r.kind }) ?_ <|
      foldlM_append_pure (foldlM_optionalField
        (fun rooms => ({ kind := some r.kind, rooms } : Draft)) ?_) <|
      foldlM_append_pure (foldlM_optionalField
        (fun query => ({ kind := some r.kind, rooms := r.rooms.map some, query } : Draft)) ?_) <|
      foldlM_append_pure (foldlM_optionalField (fun playlistId =>
        { r.draft with playlistId, value := none, state := none, timeout := none, action := none })
        ?_) <|
      foldlM_append_pure (foldlM_optionalField (fun value =>
        { r.draft with value, state := none, timeout := none, action := none }) ?_) <|
      foldlM_append_pure (foldlM_optionalField (fun state =>
        { r.draft with state, timeout := none, action := none }) ?_) <|
      foldlM_append_pure (foldlM_optionalField (fun timeout =>
        { r.draft with timeout, action := none }) ?_) <|
      foldlM_optionalField (fun action => { r.draft with action }) ?_
    · simp [readField, Format.once, reads.text]
    · intro l _
      have some : Data.texts l ≠ .null := by simp [Data.texts]
      simp [readField, Format.once, reads.option some (reads.texts l)]
    · intro s _
      simp [readField, Format.once, reads.option _ (reads.text s)]
    · intro s _
      simp [readField, Format.once, reads.option _ (reads.text s)]
    · intro v given
      simp [readField, Format.once, reads.option _ (reads.int v (small v given))]
    · intro s _
      simp [readField, Format.once, reads.option _ (reads.text s)]
    · intro s _
      simp [readField, Format.once, reads.option _ (reads.text s)]
    · intro s _
      simp [readField, Format.once, reads.option _ (reads.text s)]
  rw [fields, pure_bind, Record.toRecord_draft, same]

end Step

namespace Document

theorem toDocument_draft (d : Document) :
    Draft.toDocument ⟨some d.version, some d.name, d.defaults.map some, some d.steps⟩ = d := by
  have join {α : Type} (a : Option α) : (a.map some).join = a := by cases a <;> rfl
  simp only [Draft.toDocument, join, Option.getD_some]

include reads in
/-- A routine that can be read is read back from the data that is written for it. -/
theorem read_toData {d : Document} (readable : d.Readable) :
    Document.read F (tree d.toData) = pure d := by
  have fields : F.fields fieldNames (readField F) {} (tree d.toData) =
      pure ⟨some d.version, some d.name, d.defaults.map some, some d.steps⟩ := by
    rw [toData, reads.fields]
    simp only [List.cons_append]
    refine foldlM_cons_pure (b := { version := some d.version }) ?_ <|
      foldlM_cons_pure (b := { version := some d.version, name := some d.name }) ?_ <|
      foldlM_append_pure (foldlM_optionalField (fun defaults =>
        ({ version := some d.version, name := some d.name, defaults } : Draft)) ?_) <|
      foldlM_cons_pure ?_ (List.foldlM_nil ..)
    · simp [readField, Format.once, reads.version]
    · simp [readField, Format.once, reads.text]
    · intro defaults given
      have some : defaults.toData ≠ .null := by simp [Defaults.toData]
      have back := Defaults.read_toData reads (readable.defaults defaults given)
      simp [readField, Format.once, reads.option some back]
    · have back := reads.list fun s mem => Step.read_toData reads (readable.steps s mem)
      simp [readField, Format.once, back]
  rw [Document.read, fields, pure_bind, toDocument_draft]

end Document

end ReadBack

end RoomAudio
