import RoomAudio.Proofs.Yaml.Indentation.Scanner

/-!
# Steps of the scanner of an indented text

Each kind of token is found by both scanners, if the place where it begins means the same to both.

## Main definitions

* `Yaml.Pairing.Fits` — a place that means the same to both scanners.
* `Yaml.Pairing.Bears` — where a token outside of brackets is found by both scanners.
* `Yaml.Pairing.fetchFrom_goes` — a token that one scanner finds is found by the other one.
-/

namespace RoomAudio.Yaml

namespace Scanner

/-- Whether a directive or a document marker begins with `c` in front of `rest`, if it stands at the
beginning of a line. -/
def startsFrame (c : Char) (rest : List Char) : Bool := c == '%' || startsMarker (c :: rest)

/-- Whether a token begins here outside of brackets that is no directive and no document marker. -/
def isOutside (s : Scanner) : Bool :=
  !s.inFlow &&
    match s.cursor.rest with
    | [] => false
    | c :: rest => !(s.column == 0 && startsFrame c rest)

variable {s : Scanner} {column : Int} {a : Char} {l : List Char}

/-- A candidate that is left is not stale. -/
theorem fresh_of_dropStale {t : Scanner} {k : Candidate} (dropped : s.dropStale = some t)
    (candidate : t.candidate = some k) : k.isStale s.cursor.mark = false := by
  obtain ⟨k', fresh, dropped⟩ := Option.bind_eq_some_iff.mp dropped
  obtain ⟨ks, -, dropped⟩ := Option.bind_eq_some_iff.mp dropped
  cases dropped
  obtain rfl : k' = some k := candidate
  exact (Pairing.eq_of_refresh fresh).2

theorem indent_closeBlocks {t : Scanner} (l : List Int) (indent : t.indent = s.indent) :
    (t.closeBlocks column l).indent = (s.closeBlocks column l).indent := by
  induction l generalizing s t with
  | nil =>
    rw [closeBlocks, closeBlocks, indent]
    split
    · rfl
    · exact indent
  | cons i l ih =>
    rw [closeBlocks, closeBlocks, indent]
    split
    · exact ih rfl
    · exact indent

/-- Which block is the innermost one then depends on the blocks only. -/
theorem indent_unroll {t : Scanner} (flow : t.flowLevel = s.flowLevel)
    (indent : t.indent = s.indent) (outer : t.outer = s.outer) :
    (t.unroll column).indent = (s.unroll column).indent := by
  rw [unroll, unroll, inFlow, inFlow, flow, outer]
  split
  · exact indent
  · exact indent_closeBlocks s.outer indent

@[simp] theorem inFlow_unroll : (s.unroll column).inFlow = s.inFlow := by
  obtain ⟨found, count, indent, outer, same⟩ := exists_unroll column s
  rw [same]
  rfl

/-- At the end all blocks are closed, so it does not matter which of them were closed before. -/
theorem fetchEnd_unroll (h : -1 ≤ column) : (s.unroll column).fetchEnd = s.fetchEnd := by
  rw [fetchEnd, fetchEnd, unroll_unroll_end h]

/-- In front of a directive or a document marker all blocks end anyway. -/
theorem fetchFrom_unroll (h : -1 ≤ column) (start : s.column = 0)
    (frame : startsFrame a l = true) : (s.unroll column).fetchFrom a l = s.fetchFrom a l := by
  have start' : (s.unroll column).column = 0 := by rw [Scanner.column, cursor_unroll]; exact start
  by_cases percent : a = '%'
  · simp [fetchFrom, start, start', percent, fetchDirective, unroll_unroll_end h]
  · have marker : startsMarker (a :: l) = true := by grind [startsFrame]
    simp [fetchFrom, start, start', percent, marker, fetchMarker, unroll_unroll_end h]

end Scanner

namespace Pairing

open Scanner (startsFrame)

variable {p : Pairing} {s t : Scanner} {m : Mark} {a : Char}

/-- Where a key or an entry of a block may begin. -/
structure Fits (p : Pairing) (m : Mark) : Prop where
  opens : p.Opens (m.indent p.width).column m.column
  closes : p.Closes (m.indent p.width).column m.column

section Fetch

variable (h : p.Along t s)
include h

theorem column_eq : t.column = (s.cursor.mark.indent p.width).column := by
  rw [Scanner.column, h.cursor]
  rfl

/-- Where a token may begin, both scanners make a candidate of it. -/
theorem saveCandidate_goes (place : s.inFlow = false → p.place s.cursor.mark)
    (fits : s.inFlow = false → p.Fits s.cursor.mark) {f g : Scanner → Option Scanner}
    (next : ∀ k, p.Along { t with candidate := k.map p.candidate } { s with candidate := k } →
      p.Goes (f { s with candidate := k }) (g { t with candidate := k.map p.candidate })) :
    p.Goes (s.saveCandidate >>= f) (t.saveCandidate >>= g) :=
  Goes.saveCandidate h place (fun flow => column_eq h ▸ (fits flow).opens)
    (fun flow => column_eq h ▸ (fits flow).closes) next

/-- An opening bracket is found by both scanners. -/
theorem fetchOpening_goes (place : s.inFlow = false → p.place s.cursor.mark)
    (fits : s.inFlow = false → p.Fits s.cursor.mark) (token : Token) :
    p.Goes (s.fetchOpening token) (t.fetchOpening token) := by
  refine saveCandidate_goes h place fits fun k h => .found ?_
  exact { (h.skip 1).push token with
    keyAllowed := rfl
    flowLevel := congrArg (· + 1) h.flowLevel
    candidate := rfl
    outerCandidates := congrArg (k.map p.candidate :: ·) h.outerCandidates
    levels := congrArg (· + 1) h.levels
    keys := h.keys.enter }

theorem fetchClosing_goes (token : Token) :
    p.Goes (s.fetchClosing token) (t.fetchClosing token) := by
  refine Goes.dropCandidate h fun h => ?_
  have next := ((h.skip 1).push token).allow (b := false) rfl
  have outer : t.outerCandidates = s.outerCandidates.map (Option.map p.candidate) :=
    h.outerCandidates
  dsimp only [Scanner.push, Scanner.skip, Scanner.goto] at next ⊢
  rw [outer] at next ⊢
  cases candidates : s.outerCandidates with
  | nil =>
    rw [candidates] at next
    exact .found next
  | cons k ks =>
    refine .found { next with
      flowLevel := congrArg (· - 1) h.flowLevel
      candidate := rfl
      outerCandidates := rfl
      levels := ?_
      keys := ?_ }
    · have levels : s.flowLevel = s.outerCandidates.length := h.levels
      rw [candidates] at levels
      exact congrArg (· - 1) levels
    · have keys : p.Keys (none :: s.outerCandidates) := h.keys
      rw [candidates] at keys
      exact keys.leave (by simp)

theorem fetchComma_goes : p.Goes s.fetchComma t.fetchComma :=
  Goes.dropCandidate h fun h => .found (((h.skip 1).push .flowEntry).allow rfl)

theorem roll_goes (fits : s.inFlow = false → p.Fits s.cursor.mark) (token : Token) :
    p.Along (t.roll t.column t.count token) (s.roll s.column s.count token) := by
  rw [← h.position_count, column_eq h]
  exact h.roll (fun flow => (fits flow).opens) h.le_count token

/-- An entry of a list opens a block in both scanners or in none. -/
theorem fetchEntry_goes (fits : s.inFlow = false → p.Fits s.cursor.mark) :
    p.Goes s.fetchEntry t.fetchEntry := by
  rw [Scanner.fetchEntry, Scanner.fetchEntry, h.inFlow, h.keyAllowed]
  refine .ite (fun _ => .nothing) fun _ => ?_
  exact Goes.dropCandidate (roll_goes h fits _) fun h =>
    .found (((h.skip 1).push .blockEntry).allow rfl)

/-- A key with an indicator opens a block in both scanners or in none. -/
theorem fetchKey_goes (fits : s.inFlow = false → p.Fits s.cursor.mark) :
    p.Goes s.fetchKey t.fetchKey := by
  have allowed := h.keyAllowed
  have flow := h.inFlow
  rw [Scanner.fetchKey, Scanner.fetchKey]
  simp only [allowed, flow]
  refine .ite (fun _ => .nothing) fun _ => ?_
  exact Goes.dropCandidate (roll_goes h fits _) fun h =>
    .found (((h.skip 1).push .key).allow (congrArg not h.inFlow))

/-- A value makes a key of the same candidate, and opens a block in its column. -/
theorem fetchValue_goes (fits : s.inFlow = false → p.Fits s.cursor.mark)
    (key : s.inFlow = false → ∀ k, s.candidate = some k → p.Fits k.mark) :
    p.Goes s.fetchValue t.fetchValue := by
  cases candidate : s.candidate with
  | none =>
    have candidate' : t.candidate = none := by rw [h.candidate, candidate]; rfl
    rw [Scanner.fetchValue_of_none candidate, Scanner.fetchValue_of_none candidate', h.inFlow,
      h.keyAllowed]
    have rolled := roll_goes h fits .blockRecordStart
    refine .ite (fun _ => .nothing) fun _ => .found ?_
    exact ((rolled.skip 1).push .value).allow (congrArg not rolled.inFlow)
  | some k =>
    have candidate' : t.candidate = some (p.candidate k) := by rw [h.candidate, candidate]; rfl
    have after : p.before'.length ≤ k.position := h.keys.position k (by simp [candidate])
    rw [Scanner.fetchValue_of_some candidate, Scanner.fetchValue_of_some candidate']
    have rolled := (h.insertAt after .key).roll (fun flow => (key flow k candidate).opens) after
      .blockRecordStart
    have next := ((rolled.skip 1).push .value).withCandidate (k := none) rolled.keys.drop
    exact .found (next.allow rfl)

/-- A token that a reader finds. -/
theorem read_goes {α : Type} {x y : Option (α × Cursor)} (reads : y = indented p.width x)
    (token : α → Token) (allowed : Bool) :
    p.Goes (x >>= fun r => some { (s.goto r.2).push (token r.1) with keyAllowed := allowed })
      (y >>= fun r => some { (t.goto r.2).push (token r.1) with keyAllowed := allowed }) := by
  cases x with
  | none =>
    rw [reads]
    exact .nothing
  | some r =>
    rw [reads]
    exact .found (((h.goto r.2).push (token r.1)).allow rfl)

theorem fetchName_goes (place : s.inFlow = false → p.place s.cursor.mark)
    (fits : s.inFlow = false → p.Fits s.cursor.mark) (token : List Char → Token) :
    p.Goes (s.fetchName token) (t.fetchName token) := by
  refine saveCandidate_goes h place fits fun k h => read_goes h ?_ token false
  rw [h.cursor, Cursor.skip_indent, readName_indent]

theorem fetchTag_goes (place : s.inFlow = false → p.place s.cursor.mark)
    (fits : s.inFlow = false → p.Fits s.cursor.mark) : p.Goes s.fetchTag t.fetchTag := by
  refine saveCandidate_goes h place fits fun k h =>
    read_goes h ?_ (fun r : List Char × List Char => .tag r.1 r.2) false
  rw [h.inFlow, h.cursor, readTag_indent]

theorem fetchQuoted_goes (place : s.inFlow = false → p.place s.cursor.mark)
    (fits : s.inFlow = false → p.Fits s.cursor.mark) (style : Style) :
    p.Goes (s.fetchQuoted style) (t.fetchQuoted style) := by
  refine saveCandidate_goes h place fits fun k h =>
    .ite (fun _ => read_goes h ?_ (.scalar style) false)
      fun _ => read_goes h ?_ (.scalar style) false
  · rw [h.cursor, Cursor.skip_indent]
    exact singleQuotedFrom_indent _ _ _ _ (.inr (Nat.succ_pos _))
  · rw [h.cursor, Cursor.skip_indent]
    exact doubleQuotedFrom_indent _ _ _ _ _ (.inr (Nat.succ_pos _))

/-- A block scalar is found by both scanners if it reads the same from both columns. -/
theorem fetchBlock_goes (style : Style)
    (alike : readBlock style t.indent (t.cursor.skip 1) =
      readBlock style s.indent (t.cursor.skip 1)) :
    p.Goes (s.fetchBlock style) (t.fetchBlock style) := by
  refine Goes.dropCandidate h fun h => read_goes h ?_ (.scalar style) true
  change readBlock style t.indent (t.cursor.skip 1) = indented p.width (readBlock style s.indent _)
  rw [alike, ← readBlock_indent, ← Cursor.skip_indent]
  exact congrArg (fun c => readBlock style s.indent (c.skip 1)) h.cursor

theorem fetchMarker_goes (ends : s.inFlow = false → p.Closes (-1) (-1)) (token : Token) :
    p.Goes (s.fetchMarker token) (t.fetchMarker token) := by
  refine Goes.dropCandidate (h.unroll ends) fun h => .found ?_
  exact ((h.skip 3).push token).allow rfl

theorem fetchDirective_goes (ends : s.inFlow = false → p.Closes (-1) (-1)) :
    p.Goes s.fetchDirective t.fetchDirective := by
  refine Goes.dropCandidate (h.unroll ends) fun h => read_goes h ?_ id false
  rw [h.cursor, Cursor.skip_indent, readDirective_indent]

/-- A plain scalar. -/
theorem plain_goes (laws : p.Lawful)
    (inside : 0 < s.cursor.mark.line ∨ 0 < s.cursor.mark.column ∨
      startsMarker s.cursor.rest = false) :
    p.Goes
      (readPlain s.inFlow (s.indent + 1) s.cursor >>= fun q =>
        some { (s.goto q.after).push (.scalar .plain q.text) with keyAllowed := q.broken })
      (readPlain t.inFlow (t.indent + 1) t.cursor >>= fun q =>
        some { (t.goto q.after).push (.scalar .plain q.text) with keyAllowed := q.broken }) := by
  intro t' found
  obtain ⟨q', here, found⟩ := Option.bind_eq_some_iff.mp found
  cases found
  have deeper := laws.deeper h.blocks
  rw [readPlain, h.inFlow, h.cursor, Cursor.rest_indent, Cursor.mark_indent,
    plainFrom_indent inside (by simp)] at here
  obtain ⟨q, reads, rfl⟩ := Option.map_eq_some_iff.mp here
  rcases plainFrom_of_le (i := s.indent + 1) (by omega) reads with same | falls
  · have along := ((h.goto q.after).push (.scalar .plain q.text)).allow (d := q.broken) rfl
    refine .inr ⟨_, ?_, along⟩
    rw [readPlain, same]
    rfl
  · have later := later_of_plainFrom reads (by simp) falls.broken
    have column : (q.after.mark.indent p.width).column = q.after.mark.column :=
      if_neg (by omega)
    have deep := falls.deep
    have shallow := falls.shallow
    refine .inl ⟨h.going,
      h.inFlow.trans falls.outside, later, ?_, ?_, ⟨_, _, _, h.blocks, ?_⟩, ⟨_, rfl⟩,
      falls.starts⟩
    · change 0 < (q.after.mark.indent p.width).column
      omega
    · change ((q.after.mark.indent p.width).column : Int) ≤ t.indent
      omega
    · change s.indent < t.indent
      omega

/-- A plain scalar is found by both scanners, or it falls. -/
theorem fetchPlain_goes (laws : p.Lawful) (place : s.inFlow = false → p.place s.cursor.mark)
    (fits : s.inFlow = false → p.Fits s.cursor.mark)
    (inside : 0 < s.cursor.mark.line ∨ 0 < s.cursor.mark.column ∨
      startsMarker s.cursor.rest = false) : p.Goes s.fetchPlain t.fetchPlain :=
  saveCandidate_goes h place fits fun _ h => plain_goes h laws inside

def blockStyle? (c : Char) : Option Style :=
  if c == '|' then some .literal else if c == '>' then some .folded else none

omit h in
theorem eq_of_blockStyle {style : Style} (chosen : blockStyle? a = some style) :
    a = '|' ∧ style = .literal ∨ a = '>' ∧ style = .folded := by
  grind [blockStyle?]

omit h in
theorem fetchFrom_block {l : List Char} {style : Style} (flow : t.inFlow = false)
    (chosen : blockStyle? a = some style) : t.fetchFrom a l = t.fetchBlock style := by
  obtain ⟨rfl, rfl⟩ | ⟨rfl, rfl⟩ := eq_of_blockStyle chosen
  · simp [Scanner.fetchFrom, startsMarker, flow]
  · simp [Scanner.fetchFrom, startsMarker, flow]

omit h in
theorem not_startsFrame {l : List Char} {style : Style} (chosen : blockStyle? a = some style) :
    startsFrame a l = false := by
  obtain ⟨rfl, -⟩ | ⟨rfl, -⟩ := eq_of_blockStyle chosen
  · rfl
  · rfl

/-- What has to hold outside of brackets where a token begins that is no block scalar. -/
structure Bears (p : Pairing) (s : Scanner) : Prop where
  place : p.place s.cursor.mark
  fits : p.Fits s.cursor.mark
  key : ∀ k, s.candidate = some k → p.Fits k.mark

omit h in
theorem fetchFrom_percent {l : List Char} (column : 0 < t.column) : t.fetchFrom '%' l = none := by
  have later : (t.column == 0) = false := beq_false_of_ne (by omega)
  simp [Scanner.fetchFrom, later, Scanner.startsPlain, Scanner.isIndicator]

/-- One step, by the character that the token begins with. -/
theorem fetchFrom_goes (laws : p.Lawful) {l : List Char} (here : s.cursor.rest = a :: l)
    (begins : s.cursor.mark.line = 0 → s.column = 0 → startsMarker (a :: l) = false)
    (frames : s.inFlow = false → t.column = 0 → startsFrame a l = true → p.Closes (-1) (-1))
    (block : s.inFlow = false → ∀ style, blockStyle? a = some style →
      readBlock style t.indent (t.cursor.skip 1) = readBlock style s.indent (t.cursor.skip 1))
    (bears : s.inFlow = false → blockStyle? a = none →
      ¬(t.column = 0 ∧ startsFrame a l = true) → Bears p s) :
    p.Goes (s.fetchFrom a l) (t.fetchFrom a l) := by
  have wide := laws.wide
  have column := column_eq h
  have inside : 0 < s.cursor.mark.line ∨ 0 < s.cursor.mark.column ∨
      startsMarker s.cursor.rest = false := by
    rw [here]
    grind [Scanner.column]
  by_cases first : s.cursor.mark.line = 0 ∧ a = '%'
  · obtain ⟨line, rfl⟩ := first
    rw [fetchFrom_percent (t := t) (by grind [Mark.indent])]
    exact .nothing
  have directive : (t.column == 0 && a == '%') = (s.column == 0 && a == '%') := by
    grind [Mark.indent, Scanner.column]
  have marker : (t.column == 0 && startsMarker (a :: l)) =
      (s.column == 0 && startsMarker (a :: l)) := by
    grind [Mark.indent, Scanner.column]
  by_cases chosen : s.inFlow = false ∧ (blockStyle? a).isSome
  · obtain ⟨flow, style, chosen⟩ := (And.imp_right Option.isSome_iff_exists.mp) chosen
    rw [fetchFrom_block flow chosen, fetchFrom_block (h.inFlow.trans flow) chosen]
    exact fetchBlock_goes h style (block flow style chosen)
  have other (flow : s.inFlow = false) : blockStyle? a = none :=
    Option.not_isSome_iff_eq_none.mp fun some => chosen ⟨flow, some⟩
  unfold Scanner.fetchFrom
  rw [directive, marker, h.inFlow]
  refine .ite (fun percent => fetchDirective_goes h fun flow => ?_) fun noDirective => ?_
  · exact frames flow (by grind) (by grind [startsFrame])
  refine .ite (fun dashes => fetchMarker_goes h (fun flow => ?_) _) fun noMarker => ?_
  · exact frames flow (by grind) (by grind [startsFrame])
  have bears (flow : s.inFlow = false) : Bears p s :=
    bears flow (other flow) (by grind [startsFrame])
  have place (flow : s.inFlow = false) := (bears flow).place
  have fits (flow : s.inFlow = false) := (bears flow).fits
  refine .ite (fun _ => fetchOpening_goes h place fits _) fun _ => ?_
  refine .ite (fun _ => fetchOpening_goes h place fits _) fun _ => ?_
  refine .ite (fun _ => fetchClosing_goes h _) fun _ => ?_
  refine .ite (fun _ => fetchClosing_goes h _) fun _ => ?_
  refine .ite (fun _ => fetchComma_goes h) fun _ => ?_
  refine .ite (fun _ => fetchEntry_goes h fits) fun _ => ?_
  refine .ite (fun _ => fetchKey_goes h fits) fun _ => ?_
  refine .ite (fun _ => fetchValue_goes h fits fun flow => (bears flow).key) fun _ => ?_
  refine .ite (fun _ => fetchName_goes h place fits _) fun _ => ?_
  refine .ite (fun _ => fetchName_goes h place fits _) fun _ => ?_
  refine .ite (fun _ => fetchTag_goes h place fits) fun _ => ?_
  refine .ite (fun bar => ?_) fun _ => ?_
  · grind [blockStyle?]
  refine .ite (fun angle => ?_) fun _ => ?_
  · grind [blockStyle?]
  refine .ite (fun _ => fetchQuoted_goes h place fits _) fun _ => ?_
  refine .ite (fun _ => fetchQuoted_goes h place fits _) fun _ => ?_
  exact .ite (fun _ => fetchPlain_goes h laws place fits inside) fun _ => .nothing

/-! ## One step -/

structure Ended (p : Pairing) (t s : Scanner) : Prop where
  ended : t.ended = true
  ended' : s.ended = true
  found : ∃ later, t.found = later ++ p.before ∧ s.found = later ++ p.before'

/-- A step of the scanner of the indented text, in front of `l`, is one of the scanner of the text
alone, a plain scalar falls, or both come to the end. -/
def Steps (p : Pairing) (l : List Char) (x y : Option Scanner) : Prop :=
  ∀ t, y = some t → p.Fell t ∨ ∃ s, x = some s ∧ (p.Along t s ∨ l = [] ∧ p.Ended t s)

omit h in
theorem Goes.steps {x y : Option Scanner} (goes : p.Goes x y) (l : List Char) :
    p.Steps l x y := by
  intro t found
  obtain fell | ⟨s, same, along⟩ := goes t found
  · exact .inl fell
  · exact .inr ⟨s, same, .inl along⟩

theorem fetchEnd_steps (ends : s.inFlow = false → p.Closes (-1) (-1)) :
    p.Steps [] s.fetchEnd t.fetchEnd := by
  intro t' found
  rw [Scanner.fetchEnd_eq, h.required] at found
  rw [Scanner.fetchEnd_eq]
  split at found
  · cases found
  · rename_i optional
    cases found
    obtain ⟨later, first, second⟩ := (h.unroll ends).found
    exact .inr ⟨_, if_neg optional, .inr ⟨rfl, rfl, rfl, .streamEnd :: later,
      congrArg (Token.streamEnd :: ·) first, congrArg (Token.streamEnd :: ·) second⟩⟩

/-- What has to hold where a token begins outside of brackets. -/
structure Stands (p : Pairing) (t s : Scanner) : Prop where
  closes : p.Closes t.column s.column
  place : s.cursor.rest.head?.bind blockStyle? = none → p.place s.cursor.mark
  fits : s.cursor.rest.head?.bind blockStyle? = none →
    ∀ m, p.place m → s.cursor.mark.line ≤ m.line → p.Fits m
  block : ∀ style, s.cursor.rest.head?.bind blockStyle? = some style →
    readBlock style (t.unroll t.column).indent (t.cursor.skip 1) =
      readBlock style (s.unroll s.column).indent (t.cursor.skip 1)

omit h in
/-- A candidate that is left outside of brackets is one where a key may begin. -/
theorem fits_candidate (along : p.Along t s) (flow : s.inFlow = false)
    (fits : ∀ m, p.place m → s.cursor.mark.line ≤ m.line → p.Fits m) {k : Candidate}
    (candidate : s.candidate = some k) (fresh : k.isStale s.cursor.mark = false) :
    p.Fits k.mark := by
  have levels := along.outerCandidates_eq flow
  refine fits k.mark (along.keys.outermost k ?_) ?_
  · rw [levels, candidate]
    rfl
  · grind [Candidate.isStale]

/-- A token after the end of the blocks in front of it. -/
theorem unroll_fetchFrom_goes (laws : p.Lawful) {l : List Char} (here : s.cursor.rest = a :: l)
    (begins : s.cursor.mark.line = 0 → s.column = 0 → startsMarker (a :: l) = false)
    (ends : t.inFlow = false → t.isOutside = false → p.Closes (-1) (-1))
    (stands : t.isOutside = true → Stands p t s)
    (fresh : ∀ k, s.candidate = some k → k.isStale s.cursor.mark = false) :
    p.Goes ((s.unroll s.column).fetchFrom a l) ((t.unroll t.column).fetchFrom a l) := by
  have column := column_eq h
  have here' : t.cursor.rest = a :: l := by rw [h.cursor]; exact here
  have left (u : Scanner) : (-1 : Int) ≤ u.column := by omega
  by_cases frame : t.column = 0 ∧ startsFrame a l = true
  · have start : s.column = 0 := by
      have := frame.1
      grind [Mark.indent, Scanner.column]
    rw [Scanner.fetchFrom_unroll (left t) frame.1 frame.2,
      Scanner.fetchFrom_unroll (left s) start frame.2]
    have inside : t.isOutside = false := by simp [Scanner.isOutside, here', frame]
    refine fetchFrom_goes h laws here begins
      (fun flow _ _ => ends (h.inFlow.trans flow) inside) (fun _ style chosen => ?_)
      fun _ _ other => absurd frame other
    exact absurd frame.2 (by simp [not_startsFrame chosen])
  · have outside (flow : s.inFlow = false) : t.isOutside = true := by
      simp [Scanner.isOutside, here', h.inFlow, flow]
      grind
    have along : p.Along (t.unroll t.column) (s.unroll s.column) :=
      h.unroll fun flow => (stands (outside flow)).closes
    have start : (s.unroll s.column).column = s.column := by
      rw [Scanner.column, Scanner.cursor_unroll]
      rfl
    have start' : (t.unroll t.column).column = t.column := by
      rw [Scanner.column, Scanner.cursor_unroll]
      rfl
    refine fetchFrom_goes along laws (by rw [Scanner.cursor_unroll, here]) ?_ ?_
      (fun flow style chosen => ?_) fun flow other _ => ?_
    · rw [Scanner.cursor_unroll, start]
      exact begins
    · rw [start']
      exact fun _ first starts => absurd ⟨first, starts⟩ frame
    · rw [Scanner.inFlow_unroll] at flow
      rw [Scanner.cursor_unroll]
      refine (stands (outside flow)).block style ?_
      rw [here]
      exact chosen
    · rw [Scanner.inFlow_unroll] at flow
      obtain ⟨-, place, all, -⟩ := stands (outside flow)
      rw [here] at place all
      have place := place other
      have all := all other
      refine ⟨?_, ?_, fun k candidate => ?_⟩
      · rw [Scanner.cursor_unroll]
        exact place
      · rw [Scanner.cursor_unroll]
        exact all _ place (Nat.le_refl _)
      · rw [Scanner.candidate_unroll] at candidate
        exact fits_candidate h flow all candidate (fresh k candidate)

/-- One step after the gaps: a token, or the end. -/
theorem fetchNext_steps (laws : p.Lawful)
    (begins : s.cursor.mark.line = 0 → s.column = 0 → startsMarker s.cursor.rest = false)
    (ends : t.inFlow = false → t.isOutside = false → p.Closes (-1) (-1))
    (stands : t.isOutside = true → Stands p t s) :
    p.Steps t.cursor.rest s.fetchNext t.fetchNext := by
  intro t' found
  obtain ⟨t₁, dropped, -⟩ := Option.bind_eq_some_iff.mp found
  obtain ⟨s₁, dropped', along⟩ := h.dropStale dropped
  have fresh (k : Candidate) (candidate : s₁.candidate = some k) :
      k.isStale s.cursor.mark = false := Scanner.fresh_of_dropStale dropped' candidate
  obtain ⟨k, ks, same⟩ := Scanner.exists_of_dropStale dropped
  obtain ⟨k', ks', same'⟩ := Scanner.exists_of_dropStale dropped'
  have indent (c : Int) : (t₁.unroll c).indent = (t.unroll c).indent :=
    Scanner.indent_unroll (by rw [same]) (by rw [same]) (by rw [same])
  have indent' (c : Int) : (s₁.unroll c).indent = (s.unroll c).indent :=
    Scanner.indent_unroll (by rw [same']) (by rw [same']) (by rw [same'])
  have cursor : t₁.cursor = t.cursor := by rw [same]
  have cursor' : s₁.cursor = s.cursor := by rw [same']
  have flow : t₁.inFlow = t.inFlow := by rw [same]; rfl
  have outside : t₁.isOutside = t.isOutside := by rw [same]; rfl
  cases rest : s.cursor.rest with
  | nil =>
    have rest' : t.cursor.rest = [] := by rw [h.cursor]; exact rest
    have left (u : Scanner) : (-1 : Int) ≤ u.column := by omega
    rw [Scanner.fetchNext_of_nil dropped rest', Scanner.fetchEnd_unroll (left t₁)] at found
    rw [Scanner.fetchNext_of_nil dropped' rest, Scanner.fetchEnd_unroll (left s₁)]
    rw [rest']
    refine fetchEnd_steps along (fun flow' => ends ?_ ?_) t' found
    · rw [← flow, along.inFlow, flow']
    · simp [Scanner.isOutside, rest']
  | cons a l =>
    have rest' : t.cursor.rest = a :: l := by rw [h.cursor]; exact rest
    rw [Scanner.fetchNext_of_cons dropped rest'] at found
    rw [Scanner.fetchNext_of_cons dropped' rest]
    refine (unroll_fetchFrom_goes along laws (cursor' ▸ rest) ?_ ?_ ?_ ?_).steps _ t' found
    · rw [Scanner.column, cursor', ← rest]
      exact begins
    · rw [flow, outside]
      exact ends
    · intro inside
      obtain ⟨closes, place, fits, block⟩ := stands (outside ▸ inside)
      rw [Scanner.column, Scanner.column, ← cursor, ← cursor'] at closes
      refine ⟨closes, cursor' ▸ place, cursor' ▸ fits, fun style chosen => ?_⟩
      rw [indent, indent', Scanner.column, Scanner.column, cursor, cursor']
      exact block style (cursor' ▸ chosen)
    · rw [cursor']
      exact fresh

end Fetch

end Pairing

end RoomAudio.Yaml
