import RoomAudio.Proofs.Routine.Validity

/-!
# The first violation

A routine can break many rules at once, and the rules do not depend on each other. Here they are
listed without any order, each with the problem that names the field concerned. The check stops at
one of these problems: the one whose field comes first in the document.

## Main definitions

* `Path.Before` — the order of the fields of a document.
* `Defaults.Breaks`, `Step.Breaks`, `Document.Breaks` — all the problems there are.
* `IsFirst` — the problem that comes before all others.
* `Reports` — a check that finds the first problem, with a rule for each way to combine checks.
* `Document.validate_reports_first` — what is accepted, what is reported, and on what part of the
  document the report depends.
-/

namespace RoomAudio

/-! ## The order of fields -/

namespace Path

/-- The names of fields. Those that stand side by side are in the order in which they are looked
at. -/
def fieldOrder : List String :=
  ["version", "name", "defaults", "backend", "volume", "value", "state", "timeout", "action",
    "type", "rooms", "steps"]

def Part.rank : Part → Nat
  | .field name => fieldOrder.idxOf name
  | .index i => i

/-- One field stands before another one if this is so where the ways to them part. -/
inductive Before : Path → Path → Prop
  | head {a b : Part} {l l' : Path} (less : a.rank < b.rank) : Before (a :: l) (b :: l')
  | tail {a : Part} {l l' : Path} (rest : Before l l') : Before (a :: l) (a :: l')

namespace Before

/-- Of two fields at most one comes first. -/
theorem asymm {p q : Path} (h : p.Before q) : ¬q.Before p := by
  induction h with
  | head less =>
    rintro (back | rest) <;> omega
  | tail _ ih =>
    rintro (back | rest)
    · omega
    · exact ih rest

/-- Fields of one record come in the order of their names. -/
theorem siblings (path : Path) {a b : Part} (less : a.rank < b.rank) :
    Before (path ++ [a]) (path ++ [b]) := by
  induction path with
  | nil => exact .head less
  | cons c path ih => exact .tail ih

/-- Fields below two others stand in the order of these. -/
theorem descend {p q p' q' : Path} (h : p.Before q) (hp : p <+: p') (hq : q <+: q') :
    p'.Before q' := by
  obtain ⟨r, rfl⟩ := hp
  obtain ⟨r', rfl⟩ := hq
  induction h with
  | head less => exact .head less
  | tail _ ih => exact .tail ih

end Before

/-- Steps come in their order. -/
theorem stepPath_before {i j : Nat} (h : i < j) : Before (stepPath i) (stepPath j) :=
  Before.siblings [.field "steps"] h

end Path

/-! ## What can be wrong -/

def VolumeBreaks (path : Path) (volume : Int) (p : Problem) : Prop :=
  (volume < 0 ∨ 100 < volume) ∧ p = ⟨path, .volumeRange volume⟩

def RoomsBreak (path : Path) (rooms : List String) (p : Problem) : Prop :=
  ∃ i room, rooms[i]? = some room ∧ Text.blank room = true ∧ p = ⟨path ++ [.index i], .blankRoom⟩

inductive Defaults.Breaks (path : Path) (d : Defaults) : Problem → Prop
  | backend (filled : Text.blank d.backend = false) (unknown : Backend.ofName? d.backend = none) :
      d.Breaks path ⟨path ++ [.field "backend"], .unknownBackend d.backend⟩
  | volume {v : Int} {p : Problem} (given : d.volume = some v)
      (outside : VolumeBreaks (path ++ [.field "volume"]) v p) : d.Breaks path p
  | rooms {p : Problem} (blank : RoomsBreak (path ++ [.field "rooms"]) d.rooms p) :
      d.Breaks path p

inductive Step.Breaks (path : Path) : Step → Problem → Prop
  | noRooms : Breaks path (.outSet []) ⟨path ++ [.field "rooms"], .noRooms⟩
  | outputRooms {rooms : List String} {p : Problem}
      (blank : RoomsBreak (path ++ [.field "rooms"]) rooms p) : Breaks path (.outSet rooms) p
  | nothingToPlay {query playlistId : Option String} (noQuery : isGiven query = false)
      (noId : isGiven playlistId = false) :
      Breaks path (.play query playlistId) ⟨path, .nothingToPlay⟩
  | twoThingsToPlay {query playlistId : Option String} (someQuery : isGiven query = true)
      (someId : isGiven playlistId = true) :
      Breaks path (.play query playlistId) ⟨path, .twoThingsToPlay⟩
  | noValue {rooms : Option (List String)} :
      Breaks path (.volumeSet none rooms) ⟨path ++ [.field "value"], .missing⟩
  | value {v : Int} {rooms : Option (List String)} {p : Problem}
      (outside : VolumeBreaks (path ++ [.field "value"]) v p) :
      Breaks path (.volumeSet (some v) rooms) p
  | volumeRooms {value : Option Int} {rooms : List String} {p : Problem}
      (blank : RoomsBreak (path ++ [.field "rooms"]) rooms p) :
      Breaks path (.volumeSet value (some rooms)) p
  | state {state timeout : String} (unknown : PlaybackState.ofName? state = none) :
      Breaks path (.wait state timeout) ⟨path ++ [.field "state"], .unknownState state⟩
  | timeout {state timeout : String} {error : TimeoutError}
      (refused : parseWaitTimeout timeout = .error error) :
      Breaks path (.wait state timeout) ⟨path ++ [.field "timeout"], .timeout error⟩
  | action {action : String} (other : action ≠ "stop") :
      Breaks path (.transport action) ⟨path ++ [.field "action"], .unknownAction action⟩
  | noKind {kind : String} (blank : Text.blank kind = true) :
      Breaks path (.unsupported kind) ⟨path ++ [.field "type"], .missing⟩
  | kind {kind : String} (filled : Text.blank kind = false) :
      Breaks path (.unsupported kind) ⟨path ++ [.field "type"], .unsupportedKind kind⟩

inductive Document.Breaks (d : Document) : Problem → Prop
  | version (other : d.version ≠ "1") :
      d.Breaks ⟨[.field "version"], .wrongVersion d.version⟩
  | name (blank : Text.blank d.name = true) : d.Breaks ⟨[.field "name"], .blankName⟩
  | defaults {own : Defaults} {p : Problem} (given : d.defaults = some own)
      (breaks : own.Breaks [.field "defaults"] p) : d.Breaks p
  | noSteps (empty : d.steps = []) : d.Breaks ⟨[.field "steps"], .noSteps⟩
  | step {i : Nat} {step : Step} {p : Problem} (here : d.steps[i]? = some step)
      (breaks : step.Breaks (stepPath i) p) : d.Breaks p

section Under

variable {path : Path} {p : Problem}

/-- The problems of rooms stand below their field. -/
theorem RoomsBreak.under {rooms : List String} (h : RoomsBreak path rooms p) : path <+: p.path := by
  obtain ⟨i, room, -, -, rfl⟩ := h
  exact List.prefix_append _ _

theorem VolumeBreaks.under {volume : Int} (h : VolumeBreaks path volume p) : path <+: p.path := by
  obtain ⟨-, rfl⟩ := h
  exact List.prefix_rfl

theorem prefix_of_field {part : Path.Part} (h : path ++ [part] <+: p.path) : path <+: p.path :=
  (List.prefix_append _ _).trans h

/-- The problems of defaults concern their fields. -/
theorem Defaults.Breaks.under {d : Defaults} (h : d.Breaks path p) : path <+: p.path := by
  cases h with
  | backend => exact List.prefix_append _ _
  | volume _ outside => exact prefix_of_field outside.under
  | rooms blank => exact prefix_of_field blank.under

/-- The problems of a step concern the step or its fields. -/
theorem Step.Breaks.under {step : Step} (h : step.Breaks path p) : path <+: p.path := by
  cases h with
  | outputRooms blank | volumeRooms blank => exact prefix_of_field blank.under
  | value outside => exact prefix_of_field outside.under
  | nothingToPlay | twoThingsToPlay => exact List.prefix_rfl
  | _ => exact List.prefix_append _ _

end Under

/-! ## Checks that report the first problem -/

/-- `p` is one of the problems, and all others come after it. -/
structure IsFirst (problems : Problem → Prop) (p : Problem) : Prop where
  mem : problems p
  before : ∀ q, problems q → q = p ∨ p.path.Before q.path

/-- There is one first problem at most. -/
theorem IsFirst.unique {problems : Problem → Prop} {p q : Problem} (hp : IsFirst problems p)
    (hq : IsFirst problems q) : p = q := by
  rcases hq.before p hp.mem with same | later
  · exact same
  · rcases hp.before q hq.mem with same | earlier
    · exact same.symm
    · exact absurd earlier later.asymm

/-- The check finds the first problem if there is any. -/
structure Reports (problems : Problem → Prop) (check : Except Problem Unit) : Prop where
  ok : check = .ok () → ∀ p, ¬problems p
  error : ∀ p, check = .error p → IsFirst problems p

namespace Reports

variable {problems problems' : Problem → Prop} {check : Except Problem Unit} {p : Problem}

theorem ok_iff (h : Reports problems check) : check = .ok () ↔ ∀ p, ¬problems p := by
  refine ⟨h.ok, fun kept => ?_⟩
  cases result : check with
  | ok => rfl
  | error p => exact absurd (h.error p result).mem (kept p)

theorem error_iff (h : Reports problems check) : check = .error p ↔ IsFirst problems p := by
  refine ⟨h.error p, fun first => ?_⟩
  cases result : check with
  | ok => exact absurd first.mem (h.ok result p)
  | error q => rw [(h.error q result).unique first]

theorem of_none (kept : ∀ p, ¬problems p) : Reports problems (.ok ()) :=
  ⟨fun _ => kept, fun _ impossible => by cases impossible⟩

theorem of_isFirst (first : IsFirst problems p) : Reports problems (.error p) where
  ok impossible := by cases impossible
  error _ same := by
    cases same
    exact first

/-- A single problem. -/
theorem of_eq (only : ∀ q, problems q ↔ q = p) : Reports problems (.error p) :=
  .of_isFirst ⟨(only p).mpr rfl, fun q h => .inl ((only q).mp h)⟩

/-- The order of checks is what matters, not how the problems are described. -/
theorem congr (h : Reports problems check) (same : ∀ p, problems' p ↔ problems p) :
    Reports problems' check := by
  obtain rfl : problems' = problems := funext fun p => propext (same p)
  exact h

/-- A check of earlier fields, followed by one of later fields. -/
theorem bind {f : Unit → Except Problem Unit} (first : Reports problems check)
    (second : Reports problems' (f ()))
    (order : ∀ p q, problems p → problems' q → p.path.Before q.path) :
    Reports (fun p => problems p ∨ problems' p) (check >>= f) := by
  cases result : check with
  | ok =>
    refine second.congr fun p => ?_
    simp [first.ok result p]
  | error p =>
    obtain ⟨mem, before⟩ := first.error p result
    refine .of_isFirst ⟨.inl mem, fun q h => ?_⟩
    rcases h with h | h
    · exact before q h
    · exact .inr (order p q mem h)

/-- A condition on an earlier field, followed by a check of later fields. -/
theorem refuse {c : Prop} [Decidable c] {f : Unit → Except Problem Unit}
    (rest : Reports problems (f ())) (order : c → ∀ q, problems q → p.path.Before q.path) :
    Reports (fun q => c ∧ q = p ∨ problems q) (if c then throw p >>= f else f ()) := by
  split
  · rename_i holds
    refine .of_isFirst ⟨.inl ⟨holds, rfl⟩, fun q h => ?_⟩
    rcases h with ⟨-, same⟩ | h
    · exact .inl same
    · exact .inr (order holds q h)
  · rename_i fails
    exact rest.congr fun p => by simp [fails]

/-- The problems of a value that may be absent. -/
theorem optional {α : Type} {value : Option α} {own : α → Problem → Prop}
    (absent : value = none → Reports problems check)
    (given : ∀ a, value = some a → Reports (fun p => own a p ∨ problems p) check) :
    Reports (fun p => (∃ a, value = some a ∧ own a p) ∨ problems p) check := by
  cases value with
  | none => exact (absent rfl).congr fun p => by simp
  | some a => exact (given a rfl).congr fun p => by simp

end Reports

/-! ## The checks -/

theorem reports_checkVolume (path : Path) (volume : Int) :
    Reports (VolumeBreaks path volume) (checkVolume path volume) := by
  have outside : (volume < 0 ∨ 100 < volume) ↔ ¬(0 ≤ volume ∧ volume ≤ maxVolume) := by
    unfold maxVolume
    omega
  unfold checkVolume VolumeBreaks
  rw [outside]
  split
  · rename_i inside
    exact .of_none fun p h => h.1 inside
  · rename_i out
    exact .of_eq fun q => ⟨fun h => h.2, fun h => ⟨out, h⟩⟩

theorem reports_checkRooms (path : Path) (rooms : List String) :
    Reports (RoomsBreak path rooms) (checkRooms path rooms) := by
  unfold checkRooms
  split
  · rename_i i found
    obtain ⟨bound, blank, earlier⟩ := List.findIdx?_eq_some_iff_getElem.mp found
    refine .of_isFirst ⟨⟨i, rooms[i], by simp [bound], blank, rfl⟩, ?_⟩
    rintro q ⟨j, room, here, blank', rfl⟩
    obtain ⟨bound', rfl⟩ := List.getElem?_eq_some_iff.mp here
    rcases Nat.lt_trichotomy i j with less | rfl | more
    · exact .inr (Path.Before.siblings path less)
    · exact .inl rfl
    · exact absurd blank' (earlier j more)
  · rename_i none
    refine .of_none ?_
    rintro p ⟨i, room, here, blank, -⟩
    have named := List.findIdx?_eq_none_iff.mp none room (List.mem_of_getElem? here)
    rw [blank] at named
    cases named

/-- The problems of one field come before those of another. -/
theorem before_of_fields {path : Path} {a b : Path.Part} (less : a.rank < b.rank) {p q : Problem}
    (hp : path ++ [a] <+: p.path) (hq : path ++ [b] <+: q.path) : p.path.Before q.path :=
  (Path.Before.siblings path less).descend hp hq

/-- The problems of defaults, in the order of the checks. -/
theorem Defaults.breaks_iff (path : Path) (d : Defaults) (p : Problem) :
    d.Breaks path p ↔
      (!Text.blank d.backend && (Backend.ofName? d.backend).isNone) = true ∧
        p = ⟨path ++ [.field "backend"], .unknownBackend d.backend⟩ ∨
      (∃ v, d.volume = some v ∧ VolumeBreaks (path ++ [.field "volume"]) v p) ∨
      RoomsBreak (path ++ [.field "rooms"]) d.rooms p := by
  have backend : (!Text.blank d.backend && (Backend.ofName? d.backend).isNone) = true ↔
      Text.blank d.backend = false ∧ Backend.ofName? d.backend = none := by simp
  rw [backend]
  constructor
  · rintro (⟨filled, unknown⟩ | ⟨given, outside⟩ | blank)
    · exact .inl ⟨⟨filled, unknown⟩, rfl⟩
    · exact .inr (.inl ⟨_, given, outside⟩)
    · exact .inr (.inr blank)
  · rintro (⟨⟨filled, unknown⟩, rfl⟩ | ⟨v, given, outside⟩ | blank)
    · exact .backend filled unknown
    · exact .volume given outside
    · exact .rooms blank

/-- The check of defaults finds their first problem. -/
theorem Defaults.reports_validate (path : Path) (d : Defaults) :
    Reports (d.Breaks path) (d.validate path) := by
  have rooms := reports_checkRooms (path ++ [.field "rooms"]) d.rooms
  refine Reports.congr ?_ (d.breaks_iff path)
  unfold Defaults.validate
  dsimp only
  refine Reports.refuse (Reports.optional (fun absent => ?_) fun v given => ?_) fun _ q hq => ?_
  · rw [absent]
    exact rooms
  · rw [given]
    exact (reports_checkVolume _ v).bind rooms fun p q hp hq =>
      before_of_fields (by decide) hp.under hq.under
  · rcases hq with ⟨v, -, outside⟩ | blank
    · exact before_of_fields (by decide) List.prefix_rfl outside.under
    · exact before_of_fields (by decide) List.prefix_rfl blank.under

namespace Step

theorem reports_outSet (path : Path) (rooms : List String) :
    Reports ((outSet rooms).Breaks path) ((outSet rooms).validate path) := by
  cases rooms with
  | nil =>
    refine .of_eq fun q => ⟨?_, by rintro rfl; exact .noRooms⟩
    rintro (_ | ⟨i, room, here, -⟩)
    · rfl
    · cases here
  | cons room rooms =>
    refine (reports_checkRooms _ _).congr fun p => ⟨?_, .outputRooms⟩
    rintro (_ | blank)
    exact blank

theorem reports_play (path : Path) (query playlistId : Option String) :
    Reports ((play query playlistId).Breaks path) ((play query playlistId).validate path) := by
  simp only [validate]
  cases forQuery : isGiven query <;> cases forId : isGiven playlistId
  · refine .of_eq fun q => ⟨?_, by rintro rfl; exact .nothingToPlay forQuery forId⟩
    rintro (_ | _) <;> simp_all
  · exact .of_none (by rintro p (_ | _) <;> simp_all)
  · exact .of_none (by rintro p (_ | _) <;> simp_all)
  · refine .of_eq fun q => ⟨?_, by rintro rfl; exact .twoThingsToPlay forQuery forId⟩
    rintro (_ | _) <;> simp_all

theorem reports_volumeSet (path : Path) (value : Option Int) (rooms : Option (List String)) :
    Reports ((volumeSet value rooms).Breaks path) ((volumeSet value rooms).validate path) := by
  cases value with
  | none =>
    refine .of_isFirst ⟨.noValue, fun q h => ?_⟩
    cases h with
    | noValue => exact .inl rfl
    | volumeRooms blank => exact .inr (before_of_fields (by decide) List.prefix_rfl blank.under)
  | some v =>
    have inside := reports_checkVolume (path ++ [.field "value"]) v
    cases rooms with
    | none =>
      have nothing : Reports (fun _ => False) (pure ()) := .of_none fun _ => id
      refine Reports.congr (inside.bind nothing (by simp)) fun p => ?_
      constructor
      · rintro (_ | _)
        exact .inl ‹_›
      · rintro (outside | impossible)
        · exact .value outside
        · exact impossible.elim
    | some rooms =>
      have named := reports_checkRooms (path ++ [.field "rooms"]) rooms
      refine Reports.congr (inside.bind named fun p q hp hq =>
        before_of_fields (by decide) hp.under hq.under) fun p => ?_
      constructor
      · intro h
        cases h with
        | value outside => exact .inl outside
        | volumeRooms blank => exact .inr blank
      · rintro (outside | blank)
        · exact .value outside
        · exact .volumeRooms blank

theorem reports_wait (path : Path) (state timeout : String) :
    Reports ((wait state timeout).Breaks path) ((wait state timeout).validate path) := by
  simp only [validate]
  cases known : PlaybackState.ofName? state with
  | none =>
    refine .of_isFirst ⟨.state known, fun q h => ?_⟩
    cases h with
    | state => exact .inl rfl
    | timeout => exact .inr (before_of_fields (by decide) List.prefix_rfl List.prefix_rfl)
  | some s =>
    cases parsed : parseWaitTimeout timeout with
    | ok nanos => exact .of_none (by rintro p (_ | _) <;> simp_all)
    | error e =>
      refine .of_eq fun q => ⟨?_, by rintro rfl; exact .timeout parsed⟩
      rintro (_ | _) <;> simp_all

theorem reports_transport (path : Path) (action : String) :
    Reports ((transport action).Breaks path) ((transport action).validate path) := by
  have unknown : (TransportAction.ofName? action).isNone = true ↔ action ≠ "stop" := by
    simp [TransportAction.ofName?]
  simp only [validate, unknown]
  split
  · rename_i other
    exact .of_eq fun q => ⟨by rintro ⟨⟩; rfl, by rintro rfl; exact .action other⟩
  · rename_i stop
    refine .of_none ?_
    rintro p (_ | _)
    exact stop ‹_›

theorem reports_unsupported (path : Path) (kind : String) :
    Reports ((unsupported kind).Breaks path) ((unsupported kind).validate path) := by
  simp only [validate]
  cases given : Text.blank kind
  · refine .of_eq fun q => ⟨?_, by rintro rfl; exact .kind given⟩
    rintro (_ | _) <;> simp_all
  · refine .of_eq fun q => ⟨?_, by rintro rfl; exact .noKind given⟩
    rintro (_ | _) <;> simp_all

/-- The check of a step finds its first problem. -/
theorem reports_validate (path : Path) (step : Step) :
    Reports (step.Breaks path) (step.validate path) := by
  cases step with
  | outSet rooms => exact reports_outSet path rooms
  | play query playlistId => exact reports_play path query playlistId
  | volumeSet value rooms => exact reports_volumeSet path value rooms
  | wait state timeout => exact reports_wait path state timeout
  | transport action => exact reports_transport path action
  | unsupported kind => exact reports_unsupported path kind

/-- Valid steps are those without problems. -/
theorem valid_iff (path : Path) (step : Step) : step.Valid ↔ ∀ p, ¬step.Breaks path p :=
  (step.validate_ok_iff path).symm.trans (step.reports_validate path).ok_iff

end Step

/-- Steps that begin with the index `i`: the first one is checked before all others. -/
theorem reports_validateSteps (i : Nat) (steps : List Step) :
    Reports (fun p => ∃ (j : Nat) (step : Step),
      steps[j]? = some step ∧ step.Breaks (stepPath (i + j)) p) (validateSteps i steps) := by
  induction steps generalizing i with
  | nil => exact .of_none (by simp)
  | cons step steps ih =>
    refine Reports.congr ((step.reports_validate (stepPath i)).bind (ih (i + 1)) ?_) fun p => ?_
    · rintro p q hp ⟨j, later, -, hq⟩
      exact (Path.stepPath_before (by omega)).descend hp.under hq.under
    · constructor
      · rintro ⟨_ | j, step', here, h⟩
        · cases here
          exact .inl h
        · exact .inr ⟨j, step', here, by rwa [Nat.add_right_comm]⟩
      · rintro (h | ⟨j, step', here, h⟩)
        · exact ⟨0, step, rfl, h⟩
        · exact ⟨j + 1, step', here, by rwa [Nat.add_right_comm] at h⟩

/-- The problems of a routine, in the order of the checks. -/
theorem Document.breaks_iff (d : Document) (p : Problem) :
    d.Breaks p ↔ d.version ≠ routineVersion ∧ p = ⟨[.field "version"], .wrongVersion d.version⟩ ∨
      Text.blank d.name = true ∧ p = ⟨[.field "name"], .blankName⟩ ∨
      (∃ own, d.defaults = some own ∧ own.Breaks [.field "defaults"] p) ∨
      d.steps.isEmpty = true ∧ p = ⟨[.field "steps"], .noSteps⟩ ∨
      ∃ (j : Nat) (step : Step), d.steps[j]? = some step ∧ step.Breaks (stepPath (0 + j)) p := by
  simp only [List.isEmpty_iff, Nat.zero_add]
  constructor
  · intro h
    cases h with
    | version other => exact .inl ⟨other, rfl⟩
    | name blank => exact .inr (.inl ⟨blank, rfl⟩)
    | defaults given breaks => exact .inr (.inr (.inl ⟨_, given, breaks⟩))
    | noSteps empty => exact .inr (.inr (.inr (.inl ⟨empty, rfl⟩)))
    | step here breaks => exact .inr (.inr (.inr (.inr ⟨_, _, here, breaks⟩)))
  · rintro (⟨other, rfl⟩ | ⟨blank, rfl⟩ | ⟨own, given, breaks⟩ | ⟨empty, rfl⟩ |
      ⟨j, step, here, breaks⟩)
    · exact .version other
    · exact .name blank
    · exact .defaults given breaks
    · exact .noSteps empty
    · exact .step here breaks

/-- The problems of different fields of a routine. -/
theorem before_of_names {a b : String} {p q : Problem}
    (less : (Path.Part.field a).rank < (Path.Part.field b).rank) (hp : [.field a] <+: p.path)
    (hq : [.field b] <+: q.path) : p.path.Before q.path :=
  (Path.Before.head less).descend hp hq

/-- The problems of steps stand below the field of the steps. -/
theorem Step.Breaks.in_steps {step : Step} {i : Nat} {p : Problem}
    (h : step.Breaks (stepPath i) p) : [.field "steps"] <+: p.path :=
  (List.prefix_append [Path.Part.field "steps"] [Path.Part.index i]).trans h.under

/-- The check of a routine finds its first problem. -/
theorem Document.reports_validate (d : Document) : Reports d.Breaks d.validate := by
  have steps := Reports.refuse (c := d.steps.isEmpty) (p := ⟨[.field "steps"], .noSteps⟩)
    (f := fun _ => validateSteps 0 d.steps) (reports_validateSteps 0 d.steps)
    fun empty q ⟨j, step, here, _⟩ => by simp [List.isEmpty_iff.mp empty] at here
  refine Reports.congr ?_ d.breaks_iff
  unfold Document.validate
  dsimp only
  refine Reports.refuse (Reports.refuse (Reports.optional (fun absent => ?_) fun own given => ?_)
    fun _ q hq => ?_) fun _ q hq => ?_
  · rw [absent]
    exact steps
  · rw [given]
    refine (own.reports_validate [.field "defaults"]).bind steps fun p q hp hq => ?_
    rcases hq with ⟨-, rfl⟩ | ⟨j, step, -, breaks⟩
    · exact before_of_names (by decide) hp.under List.prefix_rfl
    · exact before_of_names (by decide) hp.under breaks.in_steps
  · rcases hq with ⟨own, -, breaks⟩ | ⟨-, rfl⟩ | ⟨j, step, -, breaks⟩
    · exact before_of_names (by decide) List.prefix_rfl breaks.under
    · exact before_of_names (by decide) List.prefix_rfl List.prefix_rfl
    · exact before_of_names (by decide) List.prefix_rfl breaks.in_steps
  · rcases hq with ⟨-, rfl⟩ | ⟨own, -, breaks⟩ | ⟨-, rfl⟩ | ⟨j, step, -, breaks⟩
    · exact before_of_names (by decide) List.prefix_rfl List.prefix_rfl
    · exact before_of_names (by decide) List.prefix_rfl breaks.under
    · exact before_of_names (by decide) List.prefix_rfl List.prefix_rfl
    · exact before_of_names (by decide) List.prefix_rfl breaks.in_steps

/-! ## What a report depends on -/

/-- A field belongs to one step only. -/
theorem eq_of_stepPath_prefix {i j : Nat} {path : Path} (hi : stepPath i <+: path)
    (hj : stepPath j <+: path) : i = j := by
  obtain ⟨rest, rfl⟩ := hi
  obtain ⟨rest', same⟩ := hj
  simp only [stepPath, List.cons_append, List.nil_append, List.cons.injEq, Path.Part.index.injEq,
    true_and] at same
  exact same.1.symm

namespace Document

variable {d : Document} {p : Problem}

theorem not_steps_of_field {name : String} {path : Path} (other : name ≠ "steps")
    (h : [.field name] <+: path) : ¬[.field "steps"] <+: path := by
  obtain ⟨rest, rfl⟩ := h
  rintro ⟨rest', same⟩
  simp only [List.cons_append, List.cons.injEq, Path.Part.field.injEq] at same
  exact other same.1.symm

/-- A problem at a step is a problem of this step. -/
theorem Breaks.at_step {i : Nat} (h : d.Breaks p) (at_i : stepPath i <+: p.path) :
    ∃ step, d.steps[i]? = some step ∧ step.Breaks (stepPath i) p := by
  have inSteps : [Path.Part.field "steps"] <+: p.path :=
    (List.prefix_append _ [Path.Part.index i]).trans at_i
  cases h with
  | version => exact absurd inSteps (not_steps_of_field (by decide) List.prefix_rfl)
  | name => exact absurd inSteps (not_steps_of_field (by decide) List.prefix_rfl)
  | defaults _ breaks => exact absurd inSteps (not_steps_of_field (by decide) breaks.under)
  | noSteps =>
    have short := at_i.length_le
    simp [stepPath] at short
  | @step j step _ here breaks =>
    obtain rfl := eq_of_stepPath_prefix at_i breaks.under
    exact ⟨step, here, breaks⟩

/-- A problem outside of the steps comes before the steps, whatever these are. -/
theorem Breaks.outside_steps (h : d.Breaks p) (outside : ¬[.field "steps"] <+: p.path)
    (steps : List Step) : { d with steps }.Breaks p ∧
      ∀ q : Problem, [.field "steps"] <+: q.path → p.path.Before q.path := by
  cases h with
  | version other => exact ⟨.version other, fun q => before_of_names (by decide) List.prefix_rfl⟩
  | name blank => exact ⟨.name blank, fun q => before_of_names (by decide) List.prefix_rfl⟩
  | defaults given breaks =>
    exact ⟨.defaults given breaks, fun q => before_of_names (by decide) breaks.under⟩
  | noSteps => exact absurd List.prefix_rfl outside
  | step _ breaks => exact absurd breaks.in_steps outside

/-- With other steps, a routine has no other problems than before outside of them. -/
theorem Breaks.of_steps {steps : List Step} (h : { d with steps }.Breaks p) :
    d.Breaks p ∨ (steps = [] ∧ p.path = [.field "steps"]) ∨
      ∃ (i : Nat) (step : Step), steps[i]? = some step ∧ step.Breaks (stepPath i) p := by
  cases h with
  | version other => exact .inl (.version other)
  | name blank => exact .inl (.name blank)
  | defaults given breaks => exact .inl (.defaults given breaks)
  | noSteps empty => exact .inr (.inl ⟨empty, rfl⟩)
  | step here breaks => exact .inr (.inr ⟨_, _, here, breaks⟩)

/-- A problem is still reported if all other ones that have been added come later. -/
theorem validate_of_later {d' : Document} (reported : d.validate = .error p) (still : d'.Breaks p)
    (added : ∀ q, d'.Breaks q → d.Breaks q ∨ p.path.Before q.path) : d'.validate = .error p := by
  have first := d.reports_validate.error_iff.mp reported
  refine d'.reports_validate.error_iff.mpr ⟨still, fun q hq => ?_⟩
  rcases added q hq with old | later
  · exact first.before q old
  · exact .inr later

/-- All steps before the one with the reported problem are valid. -/
theorem valid_before {i j : Nat} {step : Step} (reported : d.validate = .error p)
    (at_i : stepPath i <+: p.path) (earlier : j < i) (here : d.steps[j]? = some step) :
    step.Valid := by
  have first := d.reports_validate.error_iff.mp reported
  refine (step.valid_iff (stepPath j)).mpr fun q hq => ?_
  have before := (Path.stepPath_before earlier).descend hq.under at_i
  rcases first.before q (.step here hq) with rfl | after
  · exact before.asymm before
  · exact before.asymm after

/-- The steps after the one with the reported problem do not matter. -/
theorem validate_take {i : Nat} (reported : d.validate = .error p) (at_i : stepPath i <+: p.path)
    (later : List Step) :
    { d with steps := d.steps.take (i + 1) ++ later }.validate = .error p := by
  have first := d.reports_validate.error_iff.mp reported
  obtain ⟨step, here, breaks⟩ := first.mem.at_step at_i
  obtain ⟨bound, -⟩ := List.getElem?_eq_some_iff.mp here
  have kept {j : Nat} (le : j ≤ i) : (d.steps.take (i + 1) ++ later)[j]? = d.steps[j]? := by
    grind
  have still := (kept (Nat.le_refl i)).trans here
  refine validate_of_later reported (.step still breaks) fun q hq => ?_
  rcases hq.of_steps with old | ⟨empty, -⟩ | ⟨j, step', here', breaks'⟩
  · exact .inl old
  · simp [empty] at still
  · rcases Nat.lt_or_ge i j with more | le
    · exact .inr ((Path.stepPath_before more).descend at_i breaks'.under)
    · exact .inl (.step ((kept le).symm.trans here') breaks')

/-- The steps do not matter if the reported problem is none of theirs. -/
theorem validate_steps (reported : d.validate = .error p) (outside : ¬[.field "steps"] <+: p.path)
    (steps : List Step) : { d with steps }.validate = .error p := by
  have first := d.reports_validate.error_iff.mp reported
  obtain ⟨still, before⟩ := first.mem.outside_steps outside steps
  refine validate_of_later reported still fun q hq => ?_
  rcases hq.of_steps with old | ⟨-, at_steps⟩ | ⟨j, step, -, breaks⟩
  · exact .inl old
  · exact .inr (before q (at_steps ▸ List.prefix_rfl))
  · exact .inr (before q breaks.in_steps)

/-- A routine is accepted if it keeps all the rules. Otherwise the first of its problems is
reported: all others come later in the document. If this problem is in a step, then all steps
before it are valid, the step itself is not, and the steps after it can be replaced. If it is
outside of the steps, then all of them can be. -/
theorem validate_reports_first (d : Document) :
    (d.validate = .ok () ↔ d.Valid) ∧ (d.Valid ↔ ∀ p, ¬d.Breaks p) ∧
    (∀ p, d.validate = .error p ↔ IsFirst d.Breaks p) ∧
    (∀ p i, d.validate = .error p → stepPath i <+: p.path →
      (∀ j step, j < i → d.steps[j]? = some step → step.Valid) ∧
      (∃ step, d.steps[i]? = some step ∧ ¬step.Valid) ∧
      ∀ later, { d with steps := d.steps.take (i + 1) ++ later }.validate = .error p) ∧
    ∀ p, d.validate = .error p → ¬[.field "steps"] <+: p.path →
      ∀ steps, { d with steps }.validate = .error p := by
  refine ⟨d.validate_ok_iff, d.validate_ok_iff.symm.trans d.reports_validate.ok_iff,
    fun p => d.reports_validate.error_iff, ?_, fun p => validate_steps⟩
  intro p i reported at_i
  have first := d.reports_validate.error_iff.mp reported
  obtain ⟨step, here, breaks⟩ := first.mem.at_step at_i
  refine ⟨fun j step' earlier here' => valid_before reported at_i earlier here', ?_,
    validate_take reported at_i⟩
  exact ⟨step, here, fun valid => (step.valid_iff (stepPath i)).mp valid p breaks⟩

end Document

end RoomAudio
