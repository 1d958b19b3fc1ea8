import RoomAudio.Proofs.Yaml.Cursor
import RoomAudio.Yaml.Token.Scan

/-!
# Steps of the scanner

Outside of brackets a scanner is told by its place in the text, the columns of the open blocks and
the tokens found. One scanner leads to another if it finds all tokens that the other one finds; the
values of a document are then passed one after the other.

## Main definitions

* `Yaml.Scanner.place` — a scanner outside of brackets.
* `Yaml.Scanner.Leads` — what one scanner finds is found by another one before it.
* `Yaml.Scanner.LeadsToLine` — a scanner leads to the beginning of a line.
* `Yaml.Scanner.leads_of_passed` — behind a value the scanner stands at the beginning of a line.
-/

namespace RoomAudio.Yaml.Scanner

/-- A scanner outside of brackets. -/
def place (c : Cursor) (allowed : Bool) (candidate : Option Candidate) (indent : Int)
    (outer : List Int) (found : List Token) : Scanner :=
  { cursor := c, indent, outer, keyAllowed := allowed, candidate, found, count := found.length }

variable {c c' : Cursor} {allowed allowed' : Bool} {k k' : Option Candidate} {indent i column : Int}
  {outer outer' : List Int} {found found' : List Token} {m : Mark}

/-! ## Gaps -/

theorem gapFrom_newline (rest : List Char) : gapFrom false allowed false ('\n' :: rest) m =
    gapFrom false true false rest (m.newline 1) := by
  rw [gapFrom.eq_def]
  rfl

theorem gapFrom_indentation (n : Nat) (rest : List Char) :
    gapFrom false allowed false (indentation n ++ rest) m =
      gapFrom false allowed false rest (m.advance n) := by
  induction n generalizing m with
  | zero => rfl
  | succ n ih =>
    have step : indentation (n + 1) ++ rest = ' ' :: (indentation n ++ rest) := rfl
    have space : gapFrom false allowed false (' ' :: (indentation n ++ rest)) m =
        gapFrom false allowed false (indentation n ++ rest) m.next := by
      rw [gapFrom.eq_def]
      simp [isBreak, byteOrderMark]
    rw [step, space, ih, Mark.next_eq_advance, Mark.advance_advance, Nat.add_comm]

/-- No gap is passed in front of a visible character. A byte order mark is one behind the beginning
of a line. -/
theorem gapFrom_visible {flow : Bool} {d : Char} (noGap : isGap d = false) (noComment : d ≠ '#')
    (noMark : m.column ≠ 0 ∨ d ≠ byteOrderMark) (rest : List Char) :
    gapFrom flow allowed false (d :: rest) m = (⟨d :: rest, m⟩, allowed) := by
  obtain ⟨noSpace, noTab, -, noReturn⟩ := ne_of_not_isGap noGap
  rw [gapFrom.eq_def]
  split
  · rename_i heq
    cases heq
  · rename_i heq
    cases heq
    exact absurd rfl noReturn
  · rename_i heq
    cases heq
    rcases noMark with inside | other
    · simp [not_isBreak_of_not_isGap noGap, noSpace, noTab, noComment, inside]
    · simp [not_isBreak_of_not_isGap noGap, noSpace, noTab, noComment, other]

theorem gapFrom_token {d : Char} (starts : StartsToken d) (rest : List Char) :
    gapFrom false allowed false (d :: rest) m = (⟨d :: rest, m⟩, allowed) :=
  gapFrom_visible starts.1 starts.2.1 (.inr starts.2.2) rest

theorem gapFrom_line {d : Char} (starts : StartsToken d) (n : Nat) (rest : List Char) :
    gapFrom false allowed false (indentation n ++ d :: rest) m =
      (⟨d :: rest, m.advance n⟩, allowed) := by
  rw [gapFrom_indentation, gapFrom_token starts]

theorem skipGap_eq {s : Scanner} {allowed : Bool}
    (gap : gapFrom s.inFlow s.keyAllowed false s.cursor.rest s.cursor.mark = (c, allowed)) :
    s.skipGap = { s with cursor := c, keyAllowed := allowed } := by
  rw [skipGap, gap]

/-! ## The end of blocks -/

theorem unroll_place_of_le (h : indent ≤ column) :
    (place c allowed k indent outer found).unroll column =
      place c allowed k indent outer found := by
  have open_ : ¬column < indent := by omega
  cases outer <;> simp [unroll, inFlow, place, closeBlocks, open_]

theorem unroll_place_of_lt (h : column < indent) :
    (place c allowed k indent (i :: outer) found).unroll column =
      (place c allowed k i outer (.blockEnd :: found)).unroll column := by
  simp [unroll, inFlow, place, closeBlocks, h, push]

theorem unroll_place_nil (h : column < indent) :
    (place c allowed k indent [] found).unroll column =
      place c allowed k (-1) [] (.blockEnd :: found) := by
  simp [unroll, inFlow, place, closeBlocks, h, push]

/-- Which blocks end depends on the columns only. -/
theorem exists_unroll_place (column indent : Int) (outer : List Int) (found : List Token) :
    ∃ indent' outer' found', ∀ c allowed k,
      (place c allowed k indent outer found).unroll column =
        place c allowed k indent' outer' found' := by
  induction outer generalizing indent found with
  | nil =>
    by_cases h : column < indent
    · exact ⟨_, _, _, fun c allowed k => unroll_place_nil h⟩
    · exact ⟨_, _, _, fun c allowed k => unroll_place_of_le (by omega)⟩
  | cons i outer ih =>
    by_cases h : column < indent
    · obtain ⟨indent', outer', found', same⟩ := ih i (.blockEnd :: found)
      exact ⟨_, _, _, fun c allowed k => (unroll_place_of_lt h).trans (same c allowed k)⟩
    · exact ⟨_, _, _, fun c allowed k => unroll_place_of_le (by omega)⟩

/-- The tokens found when all blocks have ended. -/
def closing (indent : Int) (outer : List Int) (found : List Token) : List Token :=
  ((place ⟨[], {}⟩ false none indent outer found).unroll (-1)).found

theorem found_unroll_unroll (h : -1 ≤ column) :
    (((place c allowed k indent outer found).unroll column).unroll (-1)).found =
      closing indent outer found := by
  -- a block that is too shallow to end at `column` may still end at the end of the text
  have shallow (deep : ¬column < indent) :
      (((place c allowed k indent outer found).unroll column).unroll (-1)).found =
        closing indent outer found := by
    obtain ⟨indent', outer', found', same⟩ := exists_unroll_place (-1) indent outer found
    rw [closing, unroll_place_of_le (by omega), same, same]
    rfl
  induction outer generalizing indent found with
  | nil =>
    by_cases deep : column < indent
    · have all : (-1 : Int) < indent := by omega
      rw [closing, unroll_place_nil deep, unroll_place_nil all, unroll_place_of_le (Int.le_refl _)]
      rfl
    · exact shallow deep
  | cons i outer ih =>
    by_cases deep : column < indent
    · have all : (-1 : Int) < indent := by omega
      rw [closing, unroll_place_of_lt deep, unroll_place_of_lt all]
      refine ih fun deep => ?_
      obtain ⟨indent', outer', found', same⟩ :=
        exists_unroll_place (-1) i outer (.blockEnd :: found)
      rw [closing, unroll_place_of_le (by omega), same, same]
      rfl
    · exact shallow deep

/-! ## One step -/

theorem dropStale_place : (place c allowed k indent outer found).dropStale =
    (refresh c.mark k).map fun k => place c allowed k indent outer found := by
  rw [dropStale]
  change (refresh c.mark k).bind _ = _
  cases refresh c.mark k <;> rfl

theorem skipGap_place (gap : gapFrom false allowed false c.rest c.mark = (c', allowed')) :
    (place c allowed k indent outer found).skipGap = place c' allowed' k indent outer found := by
  have read : gapFrom (place c allowed k indent outer found).inFlow allowed false c.rest c.mark =
      (c', allowed') := gap
  rw [skipGap]
  simp only [place] at read ⊢
  rw [read]

/-- A step: gaps are passed, stale candidates dropped and deeper blocks ended. -/
theorem fetch_place (gap : gapFrom false allowed false c.rest c.mark = (c', allowed'))
    (before : (refresh c.mark k).isSome = true) (after : refresh c'.mark k = some k') :
    (place c allowed k indent outer found).fetch =
      match c'.rest with
      | [] => ((place c' allowed' k' indent outer found).unroll c'.mark.column).fetchEnd
      | d :: rest =>
        ((place c' allowed' k' indent outer found).unroll c'.mark.column).fetchFrom d rest := by
  obtain ⟨k₁, first⟩ := Option.isSome_iff_exists.mp before
  obtain ⟨indent', outer', found', same⟩ := exists_unroll_place c'.mark.column indent outer found
  have column : (place c' allowed' k' indent outer found).column = c'.mark.column := rfl
  rw [fetch, dropStale_place, first, skipGap_place gap, dropStale_place, after]
  simp only [Option.map_some, Option.bind_eq_bind, Option.bind_some, column, same]
  rfl

/-! ## Candidates -/

/-- A candidate that is not a key of necessity, and that was noted in line `line` at the latest. -/
def Idle (line : Nat) (k : Option Candidate) : Prop :=
  ∀ a, k = some a → a.required = false ∧ a.mark.line ≤ line

theorem idle_none (line : Nat) : Idle line none := by
  rintro a ⟨⟩

theorem Idle.isSome_refresh {line : Nat} (h : Idle line k) (m : Mark) :
    (refresh m k).isSome = true := by
  cases k with
  | none => rfl
  | some a =>
    rw [refresh]
    split
    · rw [(h a rfl).1]
      rfl
    · rfl

theorem Idle.of_refresh {line : Nat} (h : Idle line k) (after : refresh m k = some k') :
    Idle line k' := by
  cases k with
  | none =>
    cases after
    exact idle_none line
  | some a =>
    rw [refresh] at after
    split at after
    · split at after
      · cases after
      · cases after
        exact idle_none line
    · cases after
      exact h

theorem Idle.dropCandidate {line : Nat} (h : Idle line k) :
    (place c allowed k indent outer found).dropCandidate =
      some (place c allowed none indent outer found) := by
  cases k with
  | none => rfl
  | some a =>
    have optional := (h a rfl).1
    simp [Scanner.dropCandidate, place, optional]

/-- On a later line it is dropped. -/
theorem Idle.refresh_later {line : Nat} (h : Idle line k) (later : line < m.line) :
    refresh m k = some none := by
  cases k with
  | none => rfl
  | some a =>
    obtain ⟨optional, before⟩ := h a rfl
    have stale : a.isStale m = true := by
      rw [Candidate.isStale, Bool.or_eq_true, decide_eq_true_eq]
      exact .inl (Nat.lt_of_le_of_lt before later)
    rw [refresh, if_pos stale, if_neg (by simp [optional])]

/-! ## Runs -/

/-- How many characters a text has, spaces in front of it not counted. -/
def visible (l : List Char) : Nat := (l.dropWhile (· == ' ')).length

theorem visible_le (l : List Char) : visible l ≤ l.length := (List.dropWhile_sublist _).length_le

theorem visible_indentation (n : Nat) (l : List Char) :
    visible (indentation n ++ l) = visible l := by
  rw [visible, indentation, List.dropWhile_append_of_pos]
  · rfl
  · intro d mem
    rw [List.eq_of_mem_replicate mem]
    rfl

theorem visible_token {d : Char} (l : List Char) (starts : d ≠ ' ') :
    visible (d :: l) = l.length + 1 := by
  simp [visible, starts]

theorem visible_space {d : Char} (l : List Char) (starts : d ≠ ' ') :
    visible (' ' :: d :: l) = l.length + 1 :=
  (visible_indentation 1 (d :: l)).trans (visible_token l starts)

/-- All tokens that `t` finds are found by `s`. The steps on the way are paid for by the characters
they pass. -/
def Leads (s t : Scanner) : Prop :=
  ∃ n, n + visible t.cursor.rest ≤ visible s.cursor.rest ∧
    ∀ fuel tokens, t.run (fuel + 1) = (tokens, true) → s.run (n + fuel + 1) = (tokens, true)

namespace Leads

variable {s t u : Scanner}

theorem refl (s : Scanner) : Leads s s := ⟨0, by simp, fun fuel tokens h => by simpa using h⟩

theorem trans (first : Leads s t) (next : Leads t u) : Leads s u := by
  obtain ⟨a, shorter, runs⟩ := first
  obtain ⟨b, shorter', runs'⟩ := next
  refine ⟨a + b, by omega, fun fuel tokens h => ?_⟩
  rw [Nat.add_assoc a b fuel]
  exact runs _ _ (runs' _ _ h)

theorem of_fetch (h : s.fetch = some t) (open_ : t.ended = false)
    (shorter : visible t.cursor.rest < visible s.cursor.rest) : Leads s t := by
  refine ⟨1, by omega, fun fuel tokens read => ?_⟩
  rw [Nat.add_comm 1 fuel, run, h]
  simp only [open_]
  exact read

/-- Two scanners that step to the same one. -/
theorem of_same (h : s.fetch = t.fetch)
    (shorter : visible t.cursor.rest ≤ visible s.cursor.rest) : Leads s t := by
  refine ⟨0, by omega, fun fuel tokens read => ?_⟩
  rw [run] at read
  rw [Nat.zero_add, run, h]
  cases step : t.fetch with
  | none =>
    rw [step] at read
    simp at read
  | some u =>
    rw [step] at read
    exact read

end Leads

/-- The text is over: the open blocks end. -/
theorem run_over {line fuel : Nat} (idle : Idle line k) :
    (place ⟨[], m⟩ allowed k indent outer found).run (fuel + 1) =
      ((Token.streamEnd :: closing indent outer found).reverse, true) := by
  obtain ⟨k₁, after⟩ := Option.isSome_iff_exists.mp (idle.isSome_refresh m)
  have column : (-1 : Int) ≤ m.column := by omega
  have ends := @found_unroll_unroll ⟨[], m⟩ allowed k₁ indent m.column outer found column
  obtain ⟨indent₁, outer₁, found₁, first⟩ := exists_unroll_place m.column indent outer found
  obtain ⟨indent₂, outer₂, found₂, second⟩ := exists_unroll_place (-1) indent₁ outer₁ found₁
  rw [first, second] at ends
  have last : (place ⟨[], m⟩ allowed k indent outer found).fetch =
      some { (place ⟨[], m⟩ allowed none indent₂ outer₂ found₂).push .streamEnd with
        keyAllowed := false, ended := true } := by
    rw [@fetch_place ⟨[], m⟩ ⟨[], m⟩ _ _ k k₁ _ _ _ rfl (idle.isSome_refresh m) after]
    simp only [first, fetchEnd, second, (idle.of_refresh after).dropCandidate]
    rfl
  rw [run, last, ← ends]
  rfl

/-! ## The next line -/

theorem leads_over {line : Nat} {m' : Mark} (idle : Idle line k) (idle' : Idle line k')
    (same : closing indent outer found = closing i outer' found') :
    Leads (place ⟨[], m⟩ allowed k indent outer found)
      (place ⟨[], m'⟩ allowed' k' i outer' found') := by
  refine ⟨0, Nat.le_refl _, fun fuel tokens read => ?_⟩
  rw [run_over idle'] at read
  rw [Nat.zero_add, run_over idle, same, read]

abbrev LeadsToLine (s : Scanner) (next : List Char) (indent : Int) (outer : List Int)
    (found : List Token) : Prop :=
  ∃ m : Mark, m.column = 0 ∧ Leads s (place ⟨next, m⟩ true none indent outer found)

/-- Behind a value the scanner stands at the beginning of a line. -/
theorem leads_of_passed {line : Nat} {next : List Char} (passed : Passed line next c)
    (idle : Idle line k) (again : next ≠ [] → allowed = true) :
    LeadsToLine (place c allowed k indent outer found) next indent outer found := by
  cases passed with
  | ended m => exact ⟨{}, rfl, leads_over idle (idle_none line) rfl⟩
  | @token n d rest m starts start later =>
    obtain rfl := again (by simp)
    refine ⟨m, start, .of_same ?_ ?_⟩
    · rw [fetch_place (gapFrom_token starts rest) (idle.isSome_refresh _)
          (idle.refresh_later (m := m.advance n) later),
        fetch_place (gapFrom_line starts n rest) rfl rfl]
    · exact Nat.le_of_eq (visible_indentation n _)

/-- So it does behind a line break. -/
theorem leads_of_newline {n : Nat} {next : List Char} (follows : Follows n next)
    (idle : Idle m.line k) :
    LeadsToLine (place ⟨ahead ['\n'] next, m⟩ allowed k indent outer found)
      next indent outer found := by
  cases follows with
  | ended => exact ⟨{}, rfl, leads_over idle (idle_none m.line) rfl⟩
  | @token n' d rest column starts =>
    refine ⟨m.newline 1, rfl, .of_same ?_ ?_⟩
    · rw [ahead_of_ne_nil (by simp), List.singleton_append,
        fetch_place ((gapFrom_newline _).trans (gapFrom_line starts n' rest))
          (idle.isSome_refresh _) (idle.refresh_later (Nat.lt_succ_self _)),
        fetch_place (gapFrom_line starts n' rest) rfl rfl]
    · rw [ahead_of_ne_nil (by simp)]
      exact Nat.le_succ_of_le (visible_le _)

/-- A block ends in front of a line that is not indented as deep. -/
theorem leads_of_shallow {n : Nat} {next : List Char} (follows : Follows n next)
    (deep : (n : Int) < indent) (start : m.column = 0) :
    Leads (place ⟨next, m⟩ true none indent (i :: outer) found)
      (place ⟨next, m⟩ true none i outer (.blockEnd :: found)) := by
  cases follows with
  | ended =>
    have all : (-1 : Int) < indent := by omega
    refine leads_over (idle_none 0) (idle_none 0) ?_
    rw [closing, closing, unroll_place_of_lt all]
  | @token n' d rest column starts =>
    have shallow : ((m.advance n').column : Int) < indent := by
      rw [Mark.column_advance]
      omega
    refine .of_same ?_ (Nat.le_refl _)
    rw [fetch_place (gapFrom_line starts n' rest) rfl rfl, unroll_place_of_lt shallow,
      fetch_place (gapFrom_line starts n' rest) rfl rfl]

end RoomAudio.Yaml.Scanner
