import RoomAudio.Proofs.Yaml.Indentation.Readers
import RoomAudio.Proofs.Yaml.Progress

/-!
# The scanner of an indented text

Two scanners read the same text, one alone and one behind spaces. They go along with each other as
long as the blocks that are open belong together and the candidates for a key stand where a key of
both may begin.

## Main definitions

* `Yaml.Pairing` — which blocks and which places belong together.
* `Yaml.Pairing.Along` — the states of two scanners that go along with each other.
* `Yaml.Pairing.Opens`, `Yaml.Pairing.Closes` — columns that mean the same to both scanners.
* `Yaml.Pairing.Goes` — a step that both scanners take.
-/

namespace RoomAudio.Yaml

theorem insertIdx_append {α : Type} (l r : List α) (a : α) {i : Nat} (within : i ≤ l.length) :
    (l ++ r).insertIdx i a = l.insertIdx i a ++ r := by
  induction l generalizing i with
  | nil =>
    obtain rfl : i = 0 := by simpa using within
    rfl
  | cons b l ih =>
    cases i with
    | zero => rfl
    | succ i => simpa using ih (Nat.le_of_succ_le_succ within)

/-- How the scanner of an indented text goes along with the one of the text alone. -/
structure Pairing where
  /-- The spaces in front of the text. -/
  width : Nat
  /-- Which open blocks belong together, the innermost first. -/
  blocks : List Int → List Int → Prop
  /-- Where a key may begin outside of brackets. -/
  place : Mark → Prop
  /-- The tokens found so far that are not looked at again, in the indented text. -/
  before : List Token
  /-- The same in the text alone. -/
  before' : List Token

namespace Pairing

variable {p : Pairing} {s t : Scanner} {c : Cursor} {m : Mark} {l : List Char} {a : Char}

def position (p : Pairing) (n : Nat) : Nat := n - p.before'.length + p.before.length

def candidate (p : Pairing) (k : Candidate) : Candidate :=
  { k with position := p.position k.position, mark := k.mark.indent p.width }

/-- A key that may begin here, found after the tokens that are not looked at again. -/
structure Keys (p : Pairing) (ks : List (Option Candidate)) : Prop where
  position : ∀ k, some k ∈ ks → p.before'.length ≤ k.position
  outermost : ∀ k, ks.getLast? = some (some k) → p.place k.mark

/-- The scanner `t` of the indented text goes along with the scanner `s` of the text alone. -/
structure Along (p : Pairing) (t s : Scanner) : Prop where
  cursor : t.cursor = s.cursor.indent p.width
  flowLevel : t.flowLevel = s.flowLevel
  blocks : p.blocks (t.indent :: t.outer) (s.indent :: s.outer)
  keyAllowed : t.keyAllowed = s.keyAllowed
  candidate : t.candidate = s.candidate.map p.candidate
  outerCandidates : t.outerCandidates = s.outerCandidates.map (Option.map p.candidate)
  found : ∃ later, t.found = later ++ p.before ∧ s.found = later ++ p.before'
  count : t.count = t.found.length
  count' : s.count = s.found.length
  going : t.ended = false
  going' : s.ended = false
  levels : s.flowLevel = s.outerCandidates.length
  keys : p.Keys (s.candidate :: s.outerCandidates)

/-- In these columns both scanners open a block, or neither of them does. -/
structure Opens (p : Pairing) (column column' : Int) : Prop where
  less {i i' : Int} {l l' : List Int} (h : p.blocks (i :: l) (i' :: l')) :
    i < column ↔ i' < column'
  push {i i' : Int} {l l' : List Int} (h : p.blocks (i :: l) (i' :: l')) (deep : i' < column') :
    p.blocks (column :: i :: l) (column' :: i' :: l')

/-- The blocks to the right of these columns are closed together. -/
structure Closes (p : Pairing) (column column' : Int) : Prop where
  greater {i i' : Int} {l l' : List Int} (h : p.blocks (i :: l) (i' :: l')) :
    column < i ↔ column' < i'
  pop {i i' : Int} {l l' : List Int} (h : p.blocks (i :: l) (i' :: l')) (deep : column' < i') :
    l ≠ [] ∧ l' ≠ [] ∧ p.blocks l l'

/-- What holds of every way to go along. -/
structure Lawful (p : Pairing) : Prop where
  wide : 0 < p.width
  deeper {i i' : Int} {l l' : List Int} (h : p.blocks (i :: l) (i' :: l')) :
    i' = i ∨ 0 ≤ i' ∧ i' < i

/-- The scanner of the indented text stands behind a plain scalar, in front of a line that is
indented deep enough for the text alone to go on with the scalar. -/
structure Fell (p : Pairing) (t : Scanner) : Prop where
  going : t.ended = false
  outside : t.inFlow = false
  later : 0 < t.cursor.mark.line
  inside : 0 < t.cursor.mark.column
  shallow : t.cursor.mark.column ≤ t.indent
  apart : ∃ i l l', p.blocks (t.indent :: l) (i :: l') ∧ i < t.indent
  scalar : ∃ text, t.found.head? = some (.scalar .plain text)
  starts : ∃ a tail, t.cursor.rest = a :: tail ∧ isGap a = false ∧ a ≠ '#'

/-- A step of the scanner of the indented text is one of the scanner of the text alone, or a plain
scalar falls. -/
def Goes (p : Pairing) (x y : Option Scanner) : Prop :=
  ∀ t, y = some t → p.Fell t ∨ ∃ s, x = some s ∧ p.Along t s

namespace Goes

variable {x y : Option Scanner}

theorem nothing : p.Goes x none := by
  rintro t ⟨⟩

theorem found (h : p.Along t s) : p.Goes (some s) (some t) := by
  rintro u ⟨⟩
  exact .inr ⟨s, rfl, h⟩

/-- Both scanners make the same choice. -/
theorem ite {b : Prop} [Decidable b] {x' y' : Option Scanner} (yes : b → p.Goes x y)
    (no : ¬b → p.Goes x' y') : p.Goes (if b then x else x') (if b then y else y') := by
  split
  · exact yes ‹_›
  · exact no ‹_›

end Goes

namespace Along

theorem inFlow (h : p.Along t s) : t.inFlow = s.inFlow := by
  rw [Scanner.inFlow, Scanner.inFlow, h.flowLevel]

/-- Outside of brackets there are no other candidates. -/
theorem outerCandidates_eq (h : p.Along t s) (flow : s.inFlow = false) :
    s.outerCandidates = [] := by
  rw [← List.length_eq_zero_iff, ← h.levels]
  simpa [Scanner.inFlow] using flow

theorem goto (h : p.Along t s) (c : Cursor) : p.Along (t.goto (c.indent p.width)) (s.goto c) :=
  { h with cursor := rfl }

theorem skip (h : p.Along t s) (n : Nat) : p.Along (t.skip n) (s.skip n) := by
  rw [Scanner.skip, h.cursor, Cursor.skip_indent]
  exact h.goto _

/-- The candidate has to be a key in both scanners or in none. -/
theorem required (h : p.Along t s) :
    t.candidate.any Candidate.required = s.candidate.any Candidate.required := by
  rw [h.candidate]
  cases s.candidate <;> rfl

theorem allow (h : p.Along t s) {b d : Bool} (same : b = d) :
    p.Along { t with keyAllowed := b } { s with keyAllowed := d } :=
  { h with keyAllowed := same }

theorem push (h : p.Along t s) (token : Token) : p.Along (t.push token) (s.push token) := by
  obtain ⟨later, first, second⟩ := h.found
  exact { h with
    found := ⟨token :: later, congrArg (token :: ·) first, congrArg (token :: ·) second⟩
    count := congrArg (· + 1) h.count, count' := congrArg (· + 1) h.count' }

theorem le_count (h : p.Along t s) : p.before'.length ≤ s.count := by
  obtain ⟨later, -, second⟩ := h.found
  rw [h.count', second, List.length_append]
  omega

theorem position_count (h : p.Along t s) : p.position s.count = t.count := by
  obtain ⟨later, first, second⟩ := h.found
  rw [position, h.count, h.count', first, second, List.length_append, List.length_append]
  omega

/-- A token that is put behind what was there before has its place in both lists. -/
theorem insertAt (h : p.Along t s) {position : Nat} (after : p.before'.length ≤ position)
    (token : Token) :
    p.Along (t.insertAt (p.position position) token) (s.insertAt position token) := by
  obtain ⟨later, first, second⟩ := h.found
  have place : t.count - p.position position = s.count - position := by
    rw [← h.position_count, Pairing.position, Pairing.position]
    have := h.le_count
    omega
  have within : s.count - position ≤ later.length := by
    rw [h.count', second, List.length_append]
    omega
  exact { h with
    found := ⟨later.insertIdx (s.count - position) token, by
      rw [Scanner.insertAt, place, first, insertIdx_append _ _ _ within], by
      rw [Scanner.insertAt, second, insertIdx_append _ _ _ within]⟩
    count := by
      have := h.count
      rw [Scanner.insertAt]
      dsimp only
      rw [List.length_insertIdx_of_le_length (by omega), this]
    count' := by
      have := h.count'
      rw [Scanner.insertAt]
      dsimp only
      rw [List.length_insertIdx_of_le_length (by omega), this] }

/-- With the same candidate for the next key, or none. -/
theorem withCandidate (h : p.Along t s) {k : Option Candidate}
    (keys : p.Keys (k :: s.outerCandidates)) :
    p.Along { t with candidate := k.map p.candidate } { s with candidate := k } :=
  { h with candidate := rfl, keys }

/-- Both scanners open a block, or neither of them does. -/
theorem roll (h : p.Along t s) {column column' position : Nat}
    (opens : s.inFlow = false → p.Opens column column')
    (after : p.before'.length ≤ position) (token : Token) :
    p.Along (t.roll column (p.position position) token) (s.roll column' position token) := by
  rw [Scanner.roll, Scanner.roll, h.inFlow]
  cases flow : s.inFlow with
  | true => exact h
  | false =>
    have same := (opens flow).less h.blocks
    by_cases deep : s.indent < column'
    · rw [if_pos (by simpa using same.mpr deep), if_pos (by simpa using deep)]
      exact { h.insertAt after token with blocks := (opens flow).push h.blocks deep }
    · rw [if_neg (by simpa using mt same.mp deep), if_neg (by simpa using deep)]
      exact h

/-- Blocks that belong together are closed together, by induction on the blocks around. -/
theorem closeBlocks {column column' : Int} (h : p.Along t s) (closes : p.Closes column column') :
    p.Along (t.closeBlocks column t.outer) (s.closeBlocks column' s.outer) := by
  generalize same : s.outer = outer
  induction outer generalizing t s with
  | nil =>
    have shallow : ¬column' < s.indent := fun deep => (closes.pop h.blocks deep).2.1 same
    rw [Scanner.closeBlocks_of_not_lt _ shallow,
      Scanner.closeBlocks_of_not_lt _ (mt (closes.greater h.blocks).mp shallow)]
    exact h
  | cons i outer ih =>
    by_cases deep : column' < s.indent
    · obtain ⟨more, -, blocks⟩ := closes.pop h.blocks deep
      obtain ⟨j, l, first⟩ := List.exists_cons_of_ne_nil more
      have deep' := (closes.greater h.blocks).mpr deep
      rw [first, Scanner.closeBlocks, Scanner.closeBlocks, if_pos deep, if_pos deep']
      rw [first, same] at blocks
      exact ih (s := { s.push .blockEnd with indent := i, outer })
        (t := { t.push .blockEnd with indent := j, outer := l })
        { h.push .blockEnd with blocks := blocks } rfl
    · rw [Scanner.closeBlocks_of_not_lt _ deep,
        Scanner.closeBlocks_of_not_lt _ (mt (closes.greater h.blocks).mp deep)]
      exact h

/-- Blocks that belong together are closed together. -/
theorem unroll {column column' : Int} (h : p.Along t s)
    (closes : s.inFlow = false → p.Closes column column') :
    p.Along (t.unroll column) (s.unroll column') := by
  rw [Scanner.unroll, Scanner.unroll, h.inFlow]
  split
  · exact h
  · rename_i flow
    have flow := Bool.eq_false_iff.mpr flow
    exact h.closeBlocks (closes flow)

end Along

/-! ## Candidates -/

theorem forall₂_of_mapM {α β : Type} {f : α → Option β} {l : List α} {l' : List β}
    (h : l.mapM f = some l') : List.Forall₂ (fun a b => f a = some b) l l' := by
  induction l generalizing l' with
  | nil =>
    cases h
    exact .nil
  | cons a l ih =>
    rw [List.mapM_cons] at h
    obtain ⟨b, first, h⟩ := Option.bind_eq_some_iff.mp h
    obtain ⟨l', others, h⟩ := Option.bind_eq_some_iff.mp h
    cases h
    exact .cons first (ih others)

/-- A candidate that is left is one that was there, and it is not stale. -/
theorem eq_of_refresh {k : Option Candidate} {j : Candidate}
    (fresh : Scanner.refresh m k = some (some j)) : k = some j ∧ j.isStale m = false := by
  cases k with
  | none => cases fresh
  | some k =>
    rw [Scanner.refresh] at fresh
    grind

/-- A candidate has to be on the same line and near enough; the indentation changes neither. -/
theorem isStale_candidate (k : Candidate) (m : Mark) :
    (p.candidate k).isStale (m.indent p.width) = k.isStale m := by
  grind [Candidate.isStale, candidate, Mark.indent]

namespace Keys

variable {k : Option Candidate} {ks : List (Option Candidate)}

theorem drop (h : p.Keys (k :: ks)) : p.Keys (none :: ks) where
  position j mem := h.position j (by simpa using .inr (by simpa using mem))
  outermost j last := by
    cases ks with
    | nil => cases last
    | cons i ks => exact h.outermost j (by simpa using last)

theorem save (h : p.Keys (k :: ks)) {j : Candidate} (after : p.before'.length ≤ j.position)
    (place : ks = [] → p.place j.mark) : p.Keys (some j :: ks) where
  position i mem := by
    rcases List.mem_cons.mp mem with same | mem
    · cases same
      exact after
    · exact h.position i (List.mem_cons_of_mem _ mem)
  outermost i last := by
    cases ks with
    | nil =>
      cases last
      exact place rfl
    | cons j' ks => exact h.outermost i (by simpa using last)

theorem enter (h : p.Keys (k :: ks)) : p.Keys (none :: k :: ks) where
  position i mem := h.position i (by simpa using mem)
  outermost i last := h.outermost i (by simpa using last)

theorem leave (h : p.Keys (k :: ks)) (more : ks ≠ []) : p.Keys ks where
  position i mem := h.position i (List.mem_cons_of_mem _ mem)
  outermost i last := by
    cases ks with
    | nil => exact absurd rfl more
    | cons j ks => exact h.outermost i (by simpa using last)

/-- Candidates that are dropped leave the others as they are. -/
theorem of_fewer (h : p.Keys ks) {ks' : List (Option Candidate)}
    (fewer : List.Forall₂ (fun k k' => ∀ j, k' = some j → k = some j) ks ks') :
    p.Keys ks' := by
  induction fewer with
  | nil => exact h
  | @cons k k' ks ks' same rest ih =>
    have first (j : Candidate) (now : k' = some j) : p.before'.length ≤ j.position :=
      h.position j (by rw [same j now]; exact List.mem_cons_self)
    cases rest with
    | nil =>
      refine ⟨fun j mem => ?_, fun j last => ?_⟩
      · exact first j (List.mem_singleton.mp mem).symm
      · exact h.outermost j (by simpa using same j (by simpa using last))
    | cons =>
      have tail := ih (h.leave (by simp))
      refine ⟨fun j mem => ?_, fun j last => tail.outermost j (by simpa using last)⟩
      rcases List.mem_cons.mp mem with now | later
      · exact first j now.symm
      · exact tail.position j later

end Keys

namespace Along

/-- Both scanners drop the same candidates. -/
theorem dropStale (h : p.Along t s) {t' : Scanner} (found : t.dropStale = some t') :
    ∃ s', s.dropStale = some s' ∧ p.Along t' s' := by
  obtain ⟨k', first, found⟩ := Option.bind_eq_some_iff.mp found
  obtain ⟨ks', others, found⟩ := Option.bind_eq_some_iff.mp found
  cases found
  have required (k : Candidate) : (p.candidate k).required = k.required := rfl
  rw [h.cursor, Cursor.mark_indent, h.candidate,
    Scanner.refresh_map required (isStale_candidate · _)] at first
  rw [h.cursor, Cursor.mark_indent, h.outerCandidates,
    Scanner.mapM_refresh_map required (isStale_candidate · _)] at others
  obtain ⟨k, fresh, rfl⟩ := Option.map_eq_some_iff.mp first
  obtain ⟨ks, fresh', rfl⟩ := Option.map_eq_some_iff.mp others
  have all : (s.candidate :: s.outerCandidates).mapM (Scanner.refresh s.cursor.mark) =
      some (k :: ks) := by
    rw [List.mapM_cons, fresh, fresh']
    rfl
  have fewer : List.Forall₂ (fun i i' => ∀ j, i' = some j → i = some j)
      (s.candidate :: s.outerCandidates) (k :: ks) :=
    (forall₂_of_mapM all).imp fun i i' fresh j now => (eq_of_refresh (now ▸ fresh)).1
  refine ⟨{ s with candidate := k, outerCandidates := ks }, ?_, { h with
    candidate := rfl
    outerCandidates := rfl
    levels := h.levels.trans (forall₂_of_mapM fresh').length_eq
    keys := h.keys.of_fewer fewer }⟩
  rw [Scanner.dropStale, fresh, fresh']
  rfl

end Along

namespace Goes

variable {f g : Scanner → Option Scanner}

theorem dropCandidate (h : p.Along t s)
    (next : p.Along { t with candidate := none } { s with candidate := none } →
      p.Goes (f { s with candidate := none }) (g { t with candidate := none })) :
    p.Goes (s.dropCandidate >>= f) (t.dropCandidate >>= g) := by
  rw [Scanner.dropCandidate_eq, Scanner.dropCandidate_eq, h.required]
  split
  · exact nothing
  · exact next (h.withCandidate h.keys.drop)

/-- Both scanners make a candidate of the next token. -/
theorem saveCandidate (h : p.Along t s) (place : s.inFlow = false → p.place s.cursor.mark)
    (opens : s.inFlow = false → p.Opens t.column s.column)
    (closes : s.inFlow = false → p.Closes t.column s.column)
    (next : ∀ k, p.Along { t with candidate := k.map p.candidate } { s with candidate := k } →
      p.Goes (f { s with candidate := k }) (g { t with candidate := k.map p.candidate })) :
    p.Goes (s.saveCandidate >>= f) (t.saveCandidate >>= g) := by
  have column : (!t.inFlow && t.indent == t.column) = (!s.inFlow && s.indent == s.column) := by
    rw [h.inFlow]
    cases flow : s.inFlow with
    | true => rfl
    | false =>
      have less := (opens flow).less h.blocks
      have greater := (closes flow).greater h.blocks
      rw [Bool.eq_iff_iff]
      simp only [Bool.not_false, Bool.true_and, beq_iff_eq]
      omega
  have along := h.withCandidate h.keys
  rw [Scanner.saveCandidate_eq, Scanner.saveCandidate_eq, h.required]
  by_cases allowed : s.keyAllowed = true
  · rw [if_pos allowed, if_pos (h.keyAllowed.trans allowed)]
    split
    · exact nothing
    · let k : Candidate := ⟨!s.inFlow && s.indent == s.column, s.count, s.cursor.mark⟩
      have same : some ⟨!t.inFlow && t.indent == t.column, t.count, t.cursor.mark⟩ =
          (some k).map p.candidate := by
        rw [column, h.cursor, ← h.position_count]
        rfl
      have keys : p.Keys (some k :: s.outerCandidates) := by
        refine h.keys.save h.le_count fun outside => place ?_
        rw [Scanner.inFlow, h.levels, outside]
        rfl
      rw [same]
      exact next (some k) (h.withCandidate keys)
  · rw [if_neg allowed, if_neg (mt h.keyAllowed.symm.trans allowed)]
    have goes := next s.candidate along
    rw [← h.candidate] at goes
    exact goes

end Goes

end Pairing

end RoomAudio.Yaml
