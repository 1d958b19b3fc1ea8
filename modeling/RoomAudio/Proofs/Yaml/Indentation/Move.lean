import RoomAudio.Proofs.Yaml.Indentation.Phase

/-!
# Steps of an indented text

In every phase a step of the scanner of the indented text is one of the scanner of the text alone.
Where a list begins in the column of the record around it, the scanner of the text alone opens a
block for it. Where the record ends, that scanner closes a block more.

## Main definitions

* `Yaml.Phase.begin_list`, `Yaml.Phase.end_list` — the beginning and the end of such a list.
* `Yaml.Phase.fetch` — a step of one scanner is a step of the other one.
-/

namespace RoomAudio.Yaml

open Pairing
open Scanner (startsFrame)

namespace Scanner

variable {s : Scanner} {column : Int} {a : Char} {l : List Char}

theorem unroll_of_indent_le (shallow : s.indent ≤ column) : s.unroll column = s := by
  rw [unroll]
  split
  · rfl
  · exact closeBlocks_of_not_lt _ (by omega)

theorem fetchFrom_entry (column : 0 < s.column) (gap : startsGap l = true) :
    s.fetchFrom '-' l = s.fetchEntry := by
  have later : (s.column == 0) = false := beq_false_of_ne (by omega)
  simp [fetchFrom, later, gap]

theorem beginsList_iff : s.beginsList = true ↔
    s.indent = s.column ∧ s.outer = [-1] ∧
      ∃ l, s.cursor.rest = '-' :: l ∧ startsGap l = true := by
  rw [beginsList, Bool.and_eq_true, Bool.and_eq_true, beq_iff_eq, beq_iff_eq, and_assoc]
  cases s.cursor.rest with
  | nil => simp
  | cons c l => simp

/-- A block may be opened before or after the candidate is dropped. -/
theorem dropCandidate_roll (s : Scanner) (column position : Nat) (token : Token) :
    (s.roll column position token).dropCandidate =
      s.dropCandidate.map (·.roll column position token) := by
  have rolled (k : Option Candidate) :
      ({ s with candidate := k } : Scanner).roll column position token =
        { s.roll column position token with candidate := k } := by
    by_cases deep : (!s.inFlow && s.indent < column) = true
    · exact (if_pos deep).trans (by rw [roll, if_pos deep]; rfl)
    · exact (if_neg deep).trans (by rw [roll, if_neg deep])
  have candidate : (s.roll column position token).candidate = s.candidate := by
    rw [roll]
    split <;> rfl
  rw [dropCandidate_eq, dropCandidate_eq, candidate]
  split
  · rfl
  · exact congrArg some (rolled none).symm

/-- All blocks end, by induction on them. -/
theorem unroll_end (inner : List Int) (flow : s.inFlow = false)
    (blocks : s.indent :: s.outer = inner ++ [-1]) (inside : ∀ i ∈ inner, 0 ≤ i) :
    s.unroll (-1) = { s with
      found := List.replicate inner.length .blockEnd ++ s.found
      count := s.count + inner.length
      indent := -1
      outer := [] } := by
  rw [unroll, flow]
  simp only [Bool.false_eq_true, if_false]
  clear flow
  induction inner generalizing s with
  | nil =>
    obtain ⟨indent, outer⟩ := List.cons.inj blocks
    rw [closeBlocks_of_not_lt _ (by omega)]
    cases s
    simp_all
  | cons i inner ih =>
    obtain ⟨rfl, outer⟩ : s.indent = i ∧ s.outer = inner ++ [-1] := by simpa using blocks
    obtain ⟨j, others, around⟩ : ∃ j others, inner ++ [-1] = j :: others := by
      cases inner with
      | nil => exact ⟨-1, [], rfl⟩
      | cons j inner => exact ⟨j, inner ++ [-1], rfl⟩
    have first : 0 ≤ s.indent := inside s.indent (by simp)
    have deep : -1 < s.indent := by omega
    have rest := ih (s := { s.push .blockEnd with indent := j, outer := others }) around.symm
      fun i mem => inside i (by simp [mem])
    rw [outer, around, closeBlocks, if_pos deep, rest]
    simp [push, List.replicate_succ', Nat.add_comm, Nat.add_left_comm]

theorem dropCandidate_of_closed {t : Scanner} (closed : (s.unroll (-1)).indent ≤ -1)
    (found : (s.unroll (-1)).dropCandidate = some t) :
    (t.unroll (-1)).dropCandidate = some t ∧ t.column = s.column := by
  rw [dropCandidate_eq] at found
  split at found
  · cases found
  · cases found
    have still := unroll_of_indent_le (s := { s.unroll (-1) with candidate := none }) closed
    rw [still]
    exact ⟨rfl, congrArg (·.mark.column) cursor_unroll⟩

/-- The end is found after all blocks are closed. -/
theorem fetchEnd_of_closed (closed : (s.unroll (-1)).indent ≤ -1) :
    s.fetchEnd = (s.unroll (-1)).dropCandidate.bind fetchEnd := by
  rw [fetchEnd]
  cases found : (s.unroll (-1)).dropCandidate with
  | none => rfl
  | some t =>
    obtain ⟨same, -⟩ := dropCandidate_of_closed closed found
    rw [Option.bind_some, fetchEnd, same]

/-- A directive or a document marker is found after all blocks are closed. -/
theorem fetchFrom_of_closed (closed : (s.unroll (-1)).indent ≤ -1) (start : s.column = 0)
    (frame : startsFrame a l = true) :
    s.fetchFrom a l = (s.unroll (-1)).dropCandidate.bind (fetchFrom · a l) := by
  by_cases percent : a = '%'
  · have directive (t : Scanner) (start : t.column = 0) : t.fetchFrom a l = t.fetchDirective := by
      simp [fetchFrom, start, percent]
    rw [directive s start, fetchDirective]
    cases found : (s.unroll (-1)).dropCandidate with
    | none => rfl
    | some t =>
      obtain ⟨same, start'⟩ := dropCandidate_of_closed closed found
      rw [Option.bind_some, directive t (start'.trans start), fetchDirective, same]
  · have marker (t : Scanner) (start : t.column = 0) : t.fetchFrom a l =
        t.fetchMarker (if a == '-' then .documentStart else .documentEnd) := by
      have marked : startsMarker (a :: l) = true := by grind [startsFrame]
      simp [fetchFrom, start, percent, marked]
    rw [marker s start, fetchMarker]
    cases found : (s.unroll (-1)).dropCandidate with
    | none => rfl
    | some t =>
      obtain ⟨same, start'⟩ := dropCandidate_of_closed closed found
      rw [Option.bind_some, marker t (start'.trans start), fetchMarker, same]

end Scanner

namespace Phase

variable {k : Nat} {phase phase' : Phase} {edge i : Int} {l l' : List Int} {front : List Token}
  {begins : Grammar.beginsRecord front.reverse = true} {s t : Scanner}

/-- Gaps are passed alike, if no byte order mark stands at the beginning. -/
theorem skipGap {p : Pairing} (wide : 0 < p.width) (h : p.Along t s)
    (begins : t.skipGap.beginsAlike p.width = true) : p.Along t.skipGap s.skipGap := by
  have first : s.cursor.mark.line = 0 → s.cursor.mark.column = 0 →
      s.cursor.rest.head? ≠ some byteOrderMark := by
    intro line column starts
    obtain ⟨l, rest⟩ := List.head?_eq_some_iff.mp starts
    have here : t.cursor = ⟨byteOrderMark :: l, s.cursor.mark.indent p.width⟩ := by
      rw [h.cursor, Cursor.indent, rest]
    have inside : (s.cursor.mark.indent p.width).column = p.width := by
      rw [Mark.indent, if_pos line, column, Nat.zero_add]
    have right : (s.cursor.mark.indent p.width).column ≠ 0 := by omega
    have still : t.skipGap.cursor = t.cursor := by
      rw [Scanner.skipGap, here, Scanner.gapFrom_visible (by decide) (by decide) (.inl right)]
    rw [Scanner.beginsAlike, Scanner.column, still, here] at begins
    simp [inside, line] at begins
  let passed := Scanner.gapFrom s.inFlow s.keyAllowed false s.cursor.rest s.cursor.mark
  have along := (h.goto passed.1).allow (d := passed.2) rfl
  rw [Scanner.skipGap, Scanner.skipGap, h.inFlow, h.keyAllowed, h.cursor, Cursor.rest_indent,
    Cursor.mark_indent, gapFrom_indent s.inFlow s.keyAllowed false wide first]
  exact along

/-! ## The beginning of a list -/

/-- As long as no block of a later line is open, all blocks are shifted. -/
theorem first_of_deeper (h : (deeper edge).blocks k (i :: l) l') (shallow : i ≤ edge) :
    first.blocks k (i :: l) l' := by
  obtain ⟨new, low, same, rfl, above, -, last⟩ := h
  cases new with
  | nil => exact ⟨same, last⟩
  | cons j new =>
    obtain ⟨rfl, -⟩ := List.cons.inj same
    have deep := above i (by simp)
    omega

/-- A record that is the outermost block stands to the left in the text alone. -/
theorem outermost_of_first (h : first.blocks k [i, -1] l') (inside : 0 ≤ i) :
    l' = [i - k, -1] ∧ k ≤ i := by
  obtain ⟨same, last⟩ := h
  rcases l' with _ | ⟨a, _ | ⟨b, _ | ⟨c, l'⟩⟩⟩
  · cases same
  · cases same
  · obtain rfl : b = -1 := by simpa using last
    have first : i = shifted k a := (List.cons.inj same).1
    grind [shifted]
  · simp at same

/-- Where a list may begin in the column of the record around it. -/
def BeforeList (t : Scanner) (phase : Phase) : Prop :=
  phase = first ∨ ∃ edge, phase = deeper edge ∧ t.indent ≤ edge

theorem along_first (h : (phase.pairing k).Along t s) (before : BeforeList t phase)
    (flow : t.inFlow = false) :
    (first.pairing k).Along { t with candidate := none } { s with candidate := none } := by
  have levels := h.outerCandidates_eq (h.inFlow.symm.trans flow)
  have along := h.withCandidate (k := none) ⟨by simp [levels], by simp [levels]⟩
  obtain rfl | ⟨edge, rfl, shallow⟩ := before
  · exact along
  · exact { along with
      blocks := first_of_deeper h.blocks shallow
      keys := ⟨by simp [levels], by simp [levels]⟩ }

/-- The scanner of the text alone opens a block for the list. -/
theorem along_list (wide : 0 < k) (h : (first.pairing k).Along t s) (flow : t.inFlow = false)
    (later : 0 < s.cursor.mark.line) (here : t.indent = t.column) (alone : t.outer = [-1])
    (none : s.candidate = none) (begins : Grammar.beginsRecord t.found.reverse = true) :
    ((list t.indent t.found begins).pairing k).Along t
      (s.roll s.column s.count .blockListStart) := by
  have column : t.column = s.column := (column_eq h).trans (if_neg (by omega))
  have levels := h.outerCandidates_eq (h.inFlow.symm.trans flow)
  obtain ⟨around, inside⟩ : s.indent :: s.outer = [t.indent - k, -1] ∧ k ≤ t.indent :=
    outermost_of_first (alone ▸ h.blocks) (by omega)
  obtain ⟨found, same, same'⟩ : ∃ later, t.found = later ++ [] ∧ s.found = later ++ [] := h.found
  have flow' : s.inFlow = false := h.inFlow.symm.trans flow
  have deep : s.indent < s.column := by grind
  have rolled : s.roll s.column s.count .blockListStart =
      { s with
        found := .blockListStart :: s.found, count := s.count + 1
        indent := s.column, outer := s.indent :: s.outer } := by
    simp [Scanner.roll, Scanner.insertAt, flow', deep]
  rw [rolled]
  have blocks' : listBlocks k t.indent (t.indent :: t.outer) (s.column :: s.indent :: s.outer) := by
    refine ⟨[], by rw [alone]; rfl, ?_, by simp, inside⟩
    rw [around, ← column, ← here]
    rfl
  exact { h with
    blocks := blocks'
    candidate := by rw [none]; exact h.candidate.trans (by rw [none]; rfl)
    outerCandidates := by rw [levels]; exact h.outerCandidates.trans (by rw [levels]; rfl)
    found := ⟨[], rfl, congrArg (Token.blockListStart :: ·) (by rw [same, same'])⟩
    count' := congrArg (· + 1) h.count'
    keys := ⟨by simp [none, levels], by simp [none, levels]⟩ }

/-- The first entry of a list is found by both scanners. -/
theorem fetchEntry_list (wide : 0 < k) (h : (phase.pairing k).Along t s)
    (before : BeforeList t phase) (flow : t.inFlow = false) (later : 0 < s.cursor.mark.line)
    (here : t.indent = t.column) (alone : t.outer = [-1])
    (begins : Grammar.beginsRecord t.found.reverse = true) {l : List Char}
    (gap : startsGap l = true) :
    ((list t.indent t.found begins).pairing k).Goes ((s.unroll s.column).fetchFrom '-' l)
      ((t.unroll t.column).fetchFrom '-' l) := by
  have along := along_first h before flow
  have rolled := along_list wide along flow later here alone rfl begins
  have column : t.column = s.column := (column_eq h).trans (if_neg (by omega))
  obtain ⟨around, inside⟩ : s.indent :: s.outer = [t.indent - k, -1] ∧ k ≤ t.indent :=
    outermost_of_first (alone ▸ along.blocks) (by omega)
  have left : s.indent = t.indent - k := (List.cons.inj around).1
  have still : t.roll t.column t.count .blockListStart = t := by
    rw [Scanner.roll, if_neg]
    simp [here]
  rw [Scanner.unroll_of_indent_le (s := t) (by omega),
    Scanner.unroll_of_indent_le (s := s) (by omega), Scanner.fetchFrom_entry (by omega) gap,
    Scanner.fetchFrom_entry (by omega) gap, Scanner.fetchEntry, Scanner.fetchEntry, h.inFlow,
    h.keyAllowed, still]
  refine .ite (fun _ => .nothing) fun _ => ?_
  rw [Scanner.dropCandidate_roll, Scanner.dropCandidate_eq, Scanner.dropCandidate_eq, h.required]
  split
  · exact .nothing
  · exact .found (((rolled.skip 1).push .blockEntry).allow rfl)

/-- The first entry of a list in the column of the record around it. -/
theorem begin_list (wide : 0 < k) (h : (phase.pairing k).Along t s) (before : BeforeList t phase)
    (flow : t.inFlow = false) (later : 0 < t.cursor.mark.line) (found : ofList t = some phase') :
    (phase'.pairing k).Steps t.cursor.rest s.fetchNext t.fetchNext := by
  have line : t.cursor.mark.line = s.cursor.mark.line := by rw [h.cursor]; rfl
  obtain ⟨begins, starts, rfl⟩ : ∃ begins, t.beginsList = true ∧
      phase' = list t.indent t.found begins := by
    grind [ofList]
  obtain ⟨here, alone, l, rest, gap⟩ := Scanner.beginsList_iff.mp starts
  have rest' : s.cursor.rest = '-' :: l := by rw [← rest, h.cursor]; rfl
  intro t' found
  obtain ⟨t₁, dropped, -⟩ := Option.bind_eq_some_iff.mp found
  obtain ⟨s₁, dropped', along⟩ := h.dropStale dropped
  rw [Scanner.fetchNext_of_cons dropped rest] at found
  rw [Scanner.fetchNext_of_cons dropped' rest']
  obtain ⟨i, is, rfl⟩ := Scanner.exists_of_dropStale dropped
  obtain ⟨j, js, rfl⟩ := Scanner.exists_of_dropStale dropped'
  have goes := fetchEntry_list wide along before flow (line ▸ later) here alone begins gap
  exact goes.steps _ t' found

/-! ## The end of a list -/

/-- Behind a list the scanner of the text alone has closed a block more. -/
theorem along_behind (h : ((list edge front begins).pairing k).Along t s) (flow : t.inFlow = false)
    (found : ofEnd t front begins = some phase') :
    (phase'.pairing k).Along { t.unroll (-1) with candidate := none }
        { s.unroll (-1) with candidate := none } ∧
      (t.unroll (-1)).indent ≤ -1 ∧ (s.unroll (-1)).indent ≤ -1 := by
  have flow' : s.inFlow = false := h.inFlow.symm.trans flow
  have levels := h.outerCandidates_eq flow'
  have levels' : t.outerCandidates = [] := h.outerCandidates.trans (by rw [levels]; rfl)
  obtain ⟨new, blocks, blocks', above, inside⟩ :
    listBlocks k edge (t.indent :: t.outer) (s.indent :: s.outer) := h.blocks
  obtain ⟨later, tokens, tokens'⟩ :
    ∃ later, t.found = later ++ front ∧ s.found = later ++ .blockListStart :: front := h.found
  have all := Scanner.unroll_end (new ++ [edge]) flow (by simp [blocks]) (by grind)
  have all' := Scanner.unroll_end (new ++ [edge, edge - k]) flow' (by simp [blocks'])
    (by grind)
  have entries : t.entries front.length =
      (List.replicate new.length Token.blockEnd ++ later).reverse := by
    rw [Scanner.entries, all]
    simp [tokens, List.replicate_succ]
  obtain ⟨first, level, rfl⟩ : ∃ first level, phase' =
      behind ⟨front.reverse, t.entries front.length, begins, first, level⟩ := by
    grind [ofEnd]
  refine ⟨?_, ?_, ?_⟩
  · rw [all, all']
    exact
      { cursor := h.cursor
        flowLevel := h.flowLevel
        blocks := ⟨rfl, rfl⟩
        keyAllowed := h.keyAllowed
        candidate := rfl
        outerCandidates := by simp [levels, levels']
        found := ⟨[], by simp [before, BareList.tokens, entries, tokens, List.replicate_succ],
          by simp [before', BareList.boxed, entries, tokens', List.replicate_succ]⟩
        count := by simp [h.count, Nat.add_comm]
        count' := by simp [h.count', Nat.add_comm]
        going := h.going
        going' := h.going'
        levels := h.levels
        keys := ⟨by simp [levels], by simp [levels]⟩ }
  · exact Int.le_of_eq (congrArg Scanner.indent all)
  · exact Int.le_of_eq (congrArg Scanner.indent all')

/-- A step that closes all blocks and drops the candidate first. -/
theorem steps_of_closed (h : ((list edge front begins).pairing k).Along t s)
    {rest : List Char} {f g : Scanner → Option Scanner}
    (next : (phase'.pairing k).Steps rest (f { s.unroll (-1) with candidate := none })
      (g { t.unroll (-1) with candidate := none })) :
    (phase'.pairing k).Steps rest ((s.unroll (-1)).dropCandidate.bind f)
      ((t.unroll (-1)).dropCandidate.bind g) := by
  rw [Scanner.dropCandidate_eq, Scanner.dropCandidate_eq, Scanner.candidate_unroll,
    Scanner.candidate_unroll, h.required]
  split
  · rintro t' ⟨⟩
  · exact next

/-- The end of the text, a directive or a document marker behind a list. -/
theorem end_list (wide : 0 < k) (h : ((list edge front begins).pairing k).Along t s)
    (flow : t.inFlow = false) (outside : t.isOutside = false)
    (found : ofEnd t front begins = some phase') :
    (phase'.pairing k).Steps t.cursor.rest s.fetchNext t.fetchNext := by
  have left (u : Scanner) : (-1 : Int) ≤ u.column := by omega
  have column := column_eq h
  rw [pairing_width] at column
  intro t' fetched
  obtain ⟨t₁, dropped, -⟩ := Option.bind_eq_some_iff.mp fetched
  obtain ⟨s₁, dropped', along⟩ := h.dropStale dropped
  obtain ⟨i, is, same⟩ := Scanner.exists_of_dropStale dropped
  obtain ⟨j, js, same'⟩ := Scanner.exists_of_dropStale dropped'
  have flow' : t₁.inFlow = false := by rw [same]; exact flow
  have found' : ofEnd t₁ front begins = some phase' := by
    have entries (n : Nat) : t₁.entries n = t.entries n := by
      rw [Scanner.entries, Scanner.entries, Scanner.found_unroll (s := t) (t := t₁)] <;> rw [same]
    simp only [ofEnd, entries] at found ⊢
    exact found
  obtain ⟨behind, closed, closed'⟩ := along_behind along flow' found'
  have ends : (phase'.pairing k).Closes (-1) (-1) := by
    refine closes_end fun _ _ _ same => ?_
    grind [ofEnd]
  cases rest : s.cursor.rest with
  | nil =>
    have rest' : t.cursor.rest = [] := by rw [h.cursor]; exact rest
    rw [Scanner.fetchNext_of_nil dropped rest', Scanner.fetchEnd_unroll (left t₁),
      Scanner.fetchEnd_of_closed closed] at fetched
    rw [Scanner.fetchNext_of_nil dropped' rest, Scanner.fetchEnd_unroll (left s₁),
      Scanner.fetchEnd_of_closed closed']
    rw [rest']
    exact steps_of_closed along (fetchEnd_steps behind fun _ => ends) t' fetched
  | cons a l =>
    have rest' : t.cursor.rest = a :: l := by rw [h.cursor]; exact rest
    obtain ⟨start, frame⟩ : t.column = 0 ∧ startsFrame a l = true := by
      simpa [Scanner.isOutside, flow, rest'] using outside
    have line : s.cursor.mark.line ≠ 0 := by grind [Mark.indent]
    have start' : s.column = 0 := by grind [Mark.indent, Scanner.column]
    have first : t₁.column = 0 := by rw [same]; exact start
    have first' : s₁.column = 0 := by rw [same']; exact start'
    rw [Scanner.fetchNext_of_cons dropped rest', Scanner.fetchFrom_unroll (left t₁) first frame,
      Scanner.fetchFrom_of_closed closed first frame] at fetched
    rw [Scanner.fetchNext_of_cons dropped' rest, Scanner.fetchFrom_unroll (left s₁) first' frame,
      Scanner.fetchFrom_of_closed closed' first' frame]
    refine steps_of_closed along (Goes.steps (fetchFrom_goes behind (lawful wide) ?_ ?_
      (fun _ _ _ => ends) (fun _ style chosen => ?_) fun _ _ other => ?_) _) t' fetched
    · change (s₁.unroll (-1)).cursor.rest = a :: l
      rw [Scanner.cursor_unroll, same', rest]
    · intro first
      change (s₁.unroll (-1)).cursor.mark.line = 0 at first
      rw [Scanner.cursor_unroll, same'] at first
      exact absurd first line
    · simp [not_startsFrame chosen] at frame
    · refine absurd ⟨?_, frame⟩ other
      change (t₁.unroll (-1)).cursor.mark.column = 0
      rw [Scanner.cursor_unroll]
      exact first

/-! ## One step -/

/-- A token is found in a phase in which the two scanners go along, or a list begins or ends. -/
theorem along_next (h : (phase.pairing k).Along t s) (found : phase.next t = some phase') :
    (phase'.pairing k).Along t s ∨
      (BeforeList t phase ∧ t.isOutside = true ∧ 0 < t.cursor.mark.line ∧
        ofList t = some phase') ∨
      ∃ edge front begins, phase = list edge front begins ∧ t.inFlow = false ∧
        t.isOutside = false ∧ ofEnd t front begins = some phase' := by
  cases phase with
  | first =>
    rw [next] at found
    split at found
    · rename_i later
      rw [Bool.and_eq_true, decide_eq_true_eq] at later
      split at found
      · cases found
        exact .inl (deepen h)
      · exact .inr (.inl ⟨.inl rfl, later.1, later.2, found⟩)
    · cases found
      exact .inl h
  | deeper edge =>
    rw [next] at found
    split at found
    · rename_i outside
      split at found
      · cases found
      · rename_i later
        split at found
        · cases found
          exact .inl h
        · rename_i shallow
          have here : t.indent ≤ edge := by grind [ofList, Scanner.beginsList, Scanner.isDeep]
          exact .inr (.inl ⟨.inr ⟨edge, rfl, here⟩, outside, by omega, found⟩)
    · cases found
      exact .inl h
  | list edge front begins =>
    rw [next] at found
    split at found
    · split at found
      · cases found
      · cases found
        exact .inl h
    · rename_i flow
      split at found
      · split at found
        · cases found
          exact .inl h
        · cases found
      · rename_i inside
        exact .inr (.inr ⟨edge, front, begins, rfl, Bool.eq_false_iff.mpr flow,
          Bool.eq_false_iff.mpr inside, found⟩)
  | behind record =>
    rw [next] at found
    split at found
    · cases found
    · cases found
      exact .inl h

/-- Where a token outside of brackets stands in each phase. -/
def Placed (t : Scanner) : Phase → Prop
  | first => t.cursor.mark.line = 0
  | deeper edge => 0 < t.cursor.mark.line ∧ (edge < t.column ∨
      edge = t.column ∧ (t.cursor.rest.head?.bind blockStyle?).isSome = true)
  | list edge _ _ => 0 < t.cursor.mark.line ∧ edge ≤ t.column
  | behind _ => False

theorem placed_of_next (found : phase.next t = some phase') (outside : t.isOutside = true) :
    phase'.Placed t := by
  have flow : t.inFlow = false := by grind [Scanner.isOutside]
  cases phase with
  | first => grind [next, Placed, ofList, Scanner.isDeep, Scanner.beginsList]
  | deeper edge => grind [next, Placed, ofList, Scanner.isDeep, Scanner.beginsList]
  | list edge front begins => grind [next, Placed]
  | behind record => grind [next]

/-- A token that is found in a phase stands where it means the same to both scanners. -/
theorem stands (h : (phase.pairing k).Along t s) (placed : phase.Placed t)
    (reads : phase.readsAlike k t = true) (outside : t.isOutside = true) :
    (phase.pairing k).Stands t s := by
  have line : t.cursor.mark.line = s.cursor.mark.line := by rw [h.cursor]; rfl
  have rest : t.cursor.rest = s.cursor.rest := by rw [h.cursor]; rfl
  have column := column_eq h
  rw [pairing_width] at column
  have later (less : 0 < t.cursor.mark.line) : t.column = s.cursor.mark.column := by
    rw [column]
    exact if_neg (by omega)
  have closes : (phase.pairing k).Closes t.column s.column := by
    rw [column]
    cases phase with
    | first => exact (fits_first (line.symm.trans placed)).closes
    | deeper edge => exact closes_deeper (line ▸ placed.1) (by grind [Placed])
    | list edge front begins =>
      exact (fits_list (line ▸ placed.1) (later placed.1 ▸ placed.2)).closes
    | behind record => exact placed.elim
  refine ⟨closes, fun other => ?_, fun other m place' le => ?_, fun style chosen => ?_⟩
  · rw [← rest] at other
    cases phase with
    | first => exact line.symm.trans placed
    | deeper edge => exact .inr (by grind [Placed])
    | list edge front begins => exact .inr (later placed.1 ▸ placed.2)
    | behind record => exact placed.elim
  · cases phase with
    | first => exact fits_first place'
    | deeper edge =>
      have below : 0 < m.line := by grind [Placed]
      exact fits_deeper below (place'.resolve_left (by omega))
    | list edge front begins =>
      have below : 0 < m.line := by grind [Placed]
      exact fits_list below (place'.resolve_left (by omega))
    | behind record => exact placed.elim
  · have along : (phase.pairing k).Along (t.unroll t.column) (s.unroll s.column) :=
      h.unroll fun _ => closes
    rw [readsAlike, rest, chosen, outside] at reads
    rw [← lowered_eq along.blocks]
    simpa using reads

/-- A scalar that falls is followed by a token that does not stand deep enough. -/
theorem next_of_fell (fell : (phase.pairing k).Fell t) : phase.next t.skipGap = none := by
  obtain ⟨a, tail, rest, noGap, noComment⟩ := fell.starts
  obtain ⟨i, l, l', apart, less⟩ := fell.apart
  obtain ⟨text, scalar⟩ := fell.scalar
  have shallow := fell.shallow
  have inside := fell.inside
  have later := fell.later
  have still : t.skipGap = t := by
    have right : t.cursor.mark.column ≠ 0 := by omega
    rw [Scanner.skipGap, rest, Scanner.gapFrom_visible noGap noComment (.inl right), ← rest]
  have outside : t.isOutside = true := by
    simp [Scanner.isOutside, fell.outside, rest, Scanner.column]
    omega
  have plain : t.isBehindPlain = true := by
    obtain ⟨others, found⟩ := List.head?_eq_some_iff.mp scalar
    rw [Scanner.isBehindPlain, found]
  have noList : ofList t = none := by
    rw [ofList, dif_neg]
    intro begins
    exact Grammar.not_scalar_of_beginsRecord begins (by rw [List.getLast?_reverse, scalar])
  rw [still]
  cases phase with
  | first =>
    have edge := le_edge (s := t) (i := t.indent) (by simp)
    have left : ¬t.edge < t.column := by
      rw [Scanner.column]
      omega
    have here : t.isDeep t.edge = false := by simp [Scanner.isDeep, plain, left]
    simp [next, outside, later, here, noList]
  | deeper edge =>
    have same := deeper_cons apart
    have left : ¬edge < t.column := by
      rw [Scanner.column]
      grind
    have here : t.isDeep edge = false := by simp [Scanner.isDeep, plain, left]
    simp [next, outside, here, noList]
  | list edge front begins =>
    have same := (list_cons apart).1
    omega
  | behind record =>
    simp [next, outside]

/-- A list ends at the end of the text and in front of a directive or a document marker. -/
theorem not_list_of_next (found : phase.next t = some phase') (inside : t.isOutside = false)
    (ends : t.inFlow = false ∨ t.cursor.rest = []) : phase' ≠ list edge front begins := by
  rintro rfl
  cases phase with
  | first => simp [next, inside] at found
  | deeper edge => simp [next, inside] at found
  | list edge front begins => grind [next, ofEnd]
  | behind record => grind [next]

/-- One step of both scanners. -/
theorem fetch (wide : 0 < k) (h : (phase.pairing k).Along t s)
    (begins : t.skipGap.beginsAlike k = true) (found : phase.next t.skipGap = some phase')
    (reads : phase'.readsAlike k t.skipGap = true) :
    (phase'.pairing k).Steps t.skipGap.cursor.rest s.fetch t.fetch := by
  have passed := skipGap wide h begins
  have steps : (phase'.pairing k).Steps t.skipGap.cursor.rest s.skipGap.fetchNext
      t.skipGap.fetchNext := by
    obtain along | ⟨before, outside, later, found⟩ |
      ⟨edge, front, starts, rfl, flow, inside, found⟩ := along_next passed found
    · refine fetchNext_steps along (lawful wide) ?_
        (fun flow inside => closes_end fun _ _ _ => not_list_of_next found inside (.inl flow))
        fun outside => stands along (placed_of_next found outside) reads outside
      intro line column
      rw [Scanner.column] at column
      have place := passed.cursor
      rw [pairing_width] at place
      have line' : t.skipGap.cursor.mark.line = 0 := by
        rw [place]
        exact line
      have column' : t.skipGap.column = k := by
        rw [Scanner.column, place]
        exact (if_pos line).trans (by rw [column, Nat.zero_add])
      have rest : t.skipGap.cursor.rest = s.skipGap.cursor.rest := by
        rw [place]
        rfl
      simp only [Scanner.beginsAlike, line', column', rest] at begins
      simpa using (by simpa using begins : _ ∧ _).1
    · have flow : t.skipGap.inFlow = false := by grind [Scanner.isOutside]
      exact begin_list wide passed before flow later found
    · exact end_list wide passed flow inside found
  rw [t.fetch_eq, s.fetch_eq]
  intro t' fetched
  obtain ⟨_, dropped, fetched⟩ := Option.bind_eq_some_iff.mp fetched
  obtain ⟨_, dropped', -⟩ := h.dropStale dropped
  rw [dropped']
  exact steps t' fetched

end Phase

end RoomAudio.Yaml
