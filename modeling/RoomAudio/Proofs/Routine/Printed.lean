import Mathlib.Data.List.Forall2
import RoomAudio.Proofs.Json.Records
import RoomAudio.Proofs.Routine.Record
import RoomAudio.Proofs.Routine.Report

/-!
# Printed reports

What a reader of a printed report finds in it. A report in JSON is read as a tree whose members say
what the report says; a plain report is a summary with one entry for each step below it.

## Main definitions

* `Json.Tree.valuesOf` — the values that a record has under a name.
* `Report.InJson` — the members of a tree say what a report says.
* `Report.IsSaidBy` — a text says what a report says.
* `Report.isSaidBy_render` — a printed report does.
-/

namespace RoomAudio

open Json (Tree)

namespace Json.Tree

/-- The values under a name; a well-formed record has one of them at most. -/
def valuesOf (name : String) : Tree → List Tree
  | .record members => (members.filter (·.1 = some name)).map Prod.snd
  | _ => []

def ofNat (n : Nat) : Tree := .number ⟨false, Nat.toDigits 10 n, none, none⟩

def ofTexts (l : List String) : Tree := .list (l.map (.text ∘ some))

@[simp] theorem ofData_text (s : String) : ofData (.text s) = .text (some s) := rfl

@[simp] theorem ofData_bool (b : Bool) : ofData (.bool b) = .bool b := rfl

@[simp] theorem ofData_list (items : List Data) : ofData (.list items) = .list (items.map ofData) :=
  congrArg Tree.list (ofItems_eq_map items)

@[simp] theorem ofData_nat (n : Nat) : ofData (.int n) = ofNat n := by
  have positive : ¬((n : Int) < 0) := by omega
  simp [ofData, ofNat, Number.ofInt, positive]

@[simp] theorem ofData_texts (l : List String) : ofData (Data.texts l) = ofTexts l := by
  rw [Data.texts, ofData_list, List.map_map]
  rfl

@[simp] theorem valuesOf_ofData (name : String) (fields : List (String × Data)) :
    valuesOf name (ofData (.record fields)) =
      (fields.filter (·.1 = name)).map fun field => ofData field.2 := by
  rw [ofData, valuesOf, ofFields_eq_map, List.filter_map, List.map_map]
  simp [Function.comp_def]

end Json.Tree

/-- The members of a tree say what the parameters of a step are. -/
def Parameters.InJson (t : Tree) : Parameters → Prop
  | .outputs backend rooms =>
    t.valuesOf "backend" = [.text (some backend.name)] ∧ t.valuesOf "rooms" = [.ofTexts rooms]
  | .play backend rooms playlistId query level shuffle =>
    t.valuesOf "backend" = [.text (some backend.name)] ∧ t.valuesOf "rooms" = [.ofTexts rooms] ∧
      t.valuesOf "playlistId" = (playlistId.map (.text ∘ some)).toList ∧
      t.valuesOf "query" = (query.map (.text ∘ some)).toList ∧
      t.valuesOf "volume" = (level.map .ofNat).toList ∧
      t.valuesOf "shuffle" = (shuffle.map .bool).toList
  | .volume backend rooms value =>
    t.valuesOf "backend" = [.text (some backend.name)] ∧ t.valuesOf "rooms" = [.ofTexts rooms] ∧
      t.valuesOf "value" = [.ofNat value]
  | .wait state timeout timeoutMs =>
    t.valuesOf "state" = [.text (some state.name)] ∧
      t.valuesOf "timeout" = [.text (some timeout)] ∧ t.valuesOf "timeoutMs" = [.ofNat timeoutMs]
  | .transport action => t.valuesOf "action" = [.text (some action.name)]

/-- The members of a tree say what became of a step. The step itself is read back from it. -/
structure StepReport.InJson (e : StepReport) (t : Tree) : Prop where
  index : t.valuesOf "index" = [.ofNat e.step.index]
  kind : t.valuesOf "type" = [.text (some e.step.step.kind)]
  input : ∃ input, t.valuesOf "input" = [input] ∧
    Step.read Json.format input = .ok e.step.step
  resolved : ∃ resolved, t.valuesOf "resolved" = [resolved] ∧ e.step.parameters.InJson resolved
  ok : t.valuesOf "ok" = [.bool e.outcome.isOk]
  skipped : t.valuesOf "skipped" = [.bool e.outcome.isSkipped]
  error : t.valuesOf "error" =
    if e.outcome.error = "" then [] else [.text (some e.outcome.error)]
  durationMs : t.valuesOf "durationMs" = [.ofNat e.durationMs]

/-- The members of a tree say what a report says, with one item for each step. -/
structure Report.InJson (r : Report) (t : Tree) : Prop where
  name : t.valuesOf "name" = [.text (some r.name)]
  version : t.valuesOf "version" = [.text (some r.version)]
  mode : t.valuesOf "mode" = [.text (some r.mode.name)]
  ok : t.valuesOf "ok" = [.bool r.ok]
  startedAt : t.valuesOf "startedAt" = [.text (some r.period.startedAt.render)]
  endedAt : t.valuesOf "endedAt" = [.text (some r.period.endedAt.render)]
  durationMs : t.valuesOf "durationMs" = [.ofNat r.period.durationMs]
  steps : ∃ items, t.valuesOf "steps" = [.list items] ∧
    List.Forall₂ StepReport.InJson r.steps items

/-- A text that a reader learns the report from: a tree in JSON and nothing behind it, or a summary
and one entry for each step, joined by line feeds. -/
def Report.IsSaidBy (r : Report) (json : Bool) (text : String) : Prop :=
  if json then ∃ t, Json.Tree.read text.toList = (t, some []) ∧ r.InJson t
  else text = String.intercalate "\n"
    ((s!"{r.name} mode={r.mode.name} ok={Data.boolName r.ok} steps={r.steps.length} " ++
        s!"duration={r.period.durationMs}ms") ::
      r.steps.map fun e => s!"{e.step.index + 1}/{r.steps.length} {e.step.step.kind} ok=" ++
        Data.boolName e.outcome.isOk ++ e.outcome.remark)

/-- Parameters are read back from their JSON form. -/
theorem Parameters.inJson_toData (p : Parameters) : p.InJson (Tree.ofData p.toData) := by
  cases p with
  | play backend rooms playlistId query level shuffle =>
    simp only [InJson, toData]
    cases playlistId <;> cases query <;> cases level <;> cases shuffle <;>
      simp [Data.optionalField]
  | _ => simp [InJson, toData]

/-- What became of a step is read back from its JSON form. -/
theorem StepReport.inJson_toData {e : StepReport} (readable : e.step.step.Readable) :
    e.InJson (Tree.ofData e.toData) := by
  have input : Step.read Json.format (Tree.ofData e.step.step.toData) = .ok e.step.step :=
    Step.read_toData Json.readsBack readable
  have resolved := e.step.parameters.inJson_toData
  by_cases quiet : e.outcome.error = ""
  · constructor <;> simp [toData, quiet, input, resolved]
  · constructor <;> simp [toData, quiet, input, resolved]

namespace Report

variable {r : Report}

/-- A report is read back from its JSON form. -/
theorem inJson_toData (readable : ∀ e ∈ r.steps, e.step.step.Readable) :
    r.InJson (Tree.ofData r.toData) := by
  have each (e : StepReport) (mem : e ∈ r.steps) : e.InJson (Tree.ofData e.toData) :=
    StepReport.inJson_toData (readable e mem)
  have items : List.Forall₂ StepReport.InJson r.steps
      (r.steps.map (Tree.ofData ∘ StepReport.toData)) := by
    rw [List.forall₂_map_right_iff, List.forall₂_same]
    exact each
  constructor <;> simp [toData, items]

/-- A printed report says what the report says, if its steps are such as can be read. -/
theorem isSaidBy_render (readable : ∀ e ∈ r.steps, e.step.step.Readable) (json : Bool) :
    r.IsSaidBy json (r.render json) := by
  cases json with
  | true => exact ⟨_, Tree.read_pretty _, inJson_toData readable⟩
  | false =>
    have lines : r.steps.map (StepReport.line r.steps.length) = r.steps.map fun e =>
        e.label r.steps.length ++ Data.boolName e.outcome.isOk ++ e.outcome.remark :=
      List.map_congr_left fun e _ => StepReport.line_eq _ e
    have written : r.render false =
        String.intercalate "\n" (r.summary :: r.steps.map (StepReport.line r.steps.length)) := rfl
    rw [written, lines]
    rfl

end Report

end RoomAudio
