import RoomAudio.Proofs.Yaml.Margin.Step

/-!
# Runs of the scanner inside of margins

When the text is over, the scanner of the text alone finds the end. The one inside of margins finds
the end as well, or it takes blank characters into a scalar, and then it never finds anything else.

## Main definitions

* `Yaml.Scanner.final` — the state before the end of a text is found.
* `Yaml.Margin.Tracks.fetchNext` — one step, with the end of the text.
* `Yaml.Margin.run_eq_run` — all steps.
-/

namespace RoomAudio.Yaml

open Text (isBlank)

namespace Scanner

/-- The state before the end of the text is found, if it is found in `n` steps. -/
def final : Nat → Scanner → Option Scanner
  | 0, _ => none
  | n + 1, s =>
    match s.fetch with
    | none => none
    | some t => if t.ended then some s else final n t

variable {s t : Scanner} {column : Int} {a : Char} {rest : List Char}

/-! ## The end of blocks -/

theorem found_closeBlocks (l : List Int) (found : t.found = s.found)
    (indent : t.indent = s.indent) :
    (t.closeBlocks column l).found = (s.closeBlocks column l).found := by
  induction l generalizing s t with
  | nil =>
    rw [closeBlocks, closeBlocks, indent]
    split
    · exact congrArg (Token.blockEnd :: ·) found
    · exact found
  | cons i l ih =>
    rw [closeBlocks, closeBlocks, indent]
    split
    · exact ih (congrArg (Token.blockEnd :: ·) found) rfl
    · exact found

/-- Which tokens the end of blocks adds depends on the blocks only. -/
theorem found_unroll (flow : t.flowLevel = s.flowLevel) (indent : t.indent = s.indent)
    (outer : t.outer = s.outer) (found : t.found = s.found) :
    (t.unroll column).found = (s.unroll column).found := by
  rw [unroll, unroll, inFlow, inFlow, flow, outer]
  split
  · exact found
  · exact found_closeBlocks s.outer found indent

theorem closeBlocks_of_not_lt (l : List Int) (shallow : ¬column < s.indent) :
    s.closeBlocks column l = s := by
  cases l <;> rw [closeBlocks, if_neg shallow]

/-- Blocks may be closed in two parts, by induction on them. -/
theorem closeBlocks_closeBlocks_end (h : -1 ≤ column) (l : List Int) (s : Scanner)
    (outer : s.outer = l) :
    (s.closeBlocks column l).closeBlocks (-1) (s.closeBlocks column l).outer =
      s.closeBlocks (-1) l := by
  induction l generalizing s with
  | nil =>
    by_cases deep : column < s.indent
    · have all : -1 < s.indent := by omega
      have first : s.closeBlocks column [] =
          { s.push .blockEnd with indent := -1, outer := [] } := by rw [closeBlocks, if_pos deep]
      have last : s.closeBlocks (-1) [] =
          { s.push .blockEnd with indent := -1, outer := [] } := by rw [closeBlocks, if_pos all]
      rw [first, last]
      rfl
    · rw [closeBlocks_of_not_lt [] deep, outer]
  | cons i l ih =>
    by_cases deep : column < s.indent
    · have all : -1 < s.indent := by omega
      have first : s.closeBlocks column (i :: l) =
          closeBlocks column { s.push .blockEnd with indent := i, outer := l } l := by
        rw [closeBlocks, if_pos deep]
      have last : s.closeBlocks (-1) (i :: l) =
          closeBlocks (-1) { s.push .blockEnd with indent := i, outer := l } l := by
        rw [closeBlocks, if_pos all]
      rw [first, last]
      exact ih _ rfl
    · rw [closeBlocks_of_not_lt (i :: l) deep, outer]

/-- Blocks that end before the end of the text end there otherwise. -/
theorem unroll_unroll_end (h : -1 ≤ column) (s : Scanner) :
    (s.unroll column).unroll (-1) = s.unroll (-1) := by
  by_cases flow : s.inFlow = true
  · have unchanged : s.unroll column = s := by rw [unroll, if_pos flow]
    rw [unchanged]
  · obtain ⟨found, count, indent, outer, same⟩ := exists_unroll column s
    have flow' : ¬(s.unroll column).inFlow = true := by rw [same]; exact flow
    have first : s.unroll column = s.closeBlocks column s.outer := by rw [unroll, if_neg flow]
    have last : s.unroll (-1) = s.closeBlocks (-1) s.outer := by rw [unroll, if_neg flow]
    rw [unroll, if_neg flow', first, last]
    exact closeBlocks_closeBlocks_end h s.outer s rfl

/-- At the end of the text all blocks are closed and no key may be left. -/
theorem fetchEnd_eq (s : Scanner) : s.fetchEnd =
    if s.candidate.any Candidate.required then none
    else
      some { (({ s.unroll (-1) with candidate := none } : Scanner).push .streamEnd) with
        keyAllowed := false, ended := true } := by
  rw [fetchEnd, dropCandidate_eq, candidate_unroll]
  split <;> rfl

/-! ## Blank characters -/

/-- Nothing but a plain scalar begins with a blank character. -/
theorem fetchFrom_of_isBlank (blank : isBlank a = true) :
    s.fetchFrom a rest = if startsPlain s.inFlow a rest then s.fetchPlain else none := by
  have other (d : Char) (visible : isBlank d = false) : a ≠ d := by
    rintro rfl
    rw [blank] at visible
    cases visible
  have unmarked : startsMarker (a :: rest) = false :=
    not_startsMarker_of_isBlank (c := a) (by simp) blank
  simp (disch := decide) [fetchFrom, unmarked, other]

theorem exists_of_saveCandidate (saved : s.saveCandidate = some t) :
    ∃ k, t = { s with candidate := k } := by
  rw [saveCandidate_eq] at saved
  split at saved
  · split at saved
    · cases saved
    · cases saved
      exact ⟨_, rfl⟩
  · cases saved
    exact ⟨s.candidate, rfl⟩

/-- Where nothing but blank characters is left, a scanner takes them into a scalar. -/
theorem lost_of_fetchFrom (blank : ∀ b ∈ a :: rest, isBlank b = true)
    (here : s.cursor.rest = a :: rest) (going : s.ended = false)
    (found : s.fetchFrom a rest = some t) : t.Lost := by
  have unmarked : startsMarker (a :: rest) = false :=
    not_startsMarker_of_isBlank (c := a) (by simp) (blank a (by simp))
  have place : s.cursor = ⟨a :: rest, s.cursor.mark⟩ := by rw [← here]
  rw [fetchFrom_of_isBlank (blank a (by simp))] at found
  split at found
  · rename_i starts
    obtain ⟨t', saved, found⟩ := Option.bind_eq_some_iff.mp found
    obtain ⟨k, rfl⟩ := exists_of_saveCandidate saved
    obtain ⟨p, reads, found⟩ := Option.bind_eq_some_iff.mp found
    cases found
    change readPlain s.inFlow (s.indent + 1) s.cursor = _ at reads
    rw [place] at reads
    have ends := trailsBlank_of_readPlain starts (by rw [unmarked, Bool.and_false]) blank reads
    have within : p.after.rest <:+ a :: rest := (reaches_plainFrom reads).suffix
    exact .push (s := { s with candidate := k }) (.scalar .plain p.text) going
      (fun b mem => blank b (within.subset mem)) ends p.broken
  · cases found

/-! ## One step -/

def fetchNext (s : Scanner) : Option Scanner := do
  let s ← s.dropStale
  let s := s.unroll s.column
  match s.cursor.rest with
  | [] => s.fetchEnd
  | c :: rest => s.fetchFrom c rest

/-- A step drops candidates, passes the gaps and finds a token. -/
theorem fetch_eq (s : Scanner) : s.fetch = s.dropStale.bind fun _ => s.skipGap.fetchNext := rfl

theorem exists_of_dropStale (dropped : s.dropStale = some t) :
    ∃ k ks, t = { s with candidate := k, outerCandidates := ks } := by
  obtain ⟨k, -, dropped⟩ := Option.bind_eq_some_iff.mp dropped
  obtain ⟨ks, -, dropped⟩ := Option.bind_eq_some_iff.mp dropped
  cases dropped
  exact ⟨k, ks, rfl⟩

/-- A step at the end of the text. -/
theorem fetchNext_of_nil (dropped : s.dropStale = some t) (past : s.cursor.rest = []) :
    s.fetchNext = (t.unroll t.column).fetchEnd := by
  obtain ⟨k, ks, rfl⟩ := exists_of_dropStale dropped
  rw [fetchNext, dropped]
  change (match (Scanner.unroll _ _).cursor.rest with | [] => _ | c :: rest => _) = _
  rw [cursor_unroll]
  split
  · rfl
  · rename_i here
    rw [past] at here
    cases here

/-- A step where there is text left. -/
theorem fetchNext_of_cons (dropped : s.dropStale = some t) (here : s.cursor.rest = a :: rest) :
    s.fetchNext = (t.unroll t.column).fetchFrom a rest := by
  obtain ⟨k, ks, rfl⟩ := exists_of_dropStale dropped
  rw [fetchNext, dropped]
  change (match (Scanner.unroll _ _).cursor.rest with | [] => _ | c :: rest => _) = _
  rw [cursor_unroll]
  split
  · rename_i past
    rw [here] at past
    cases past
  · rename_i here'
    cases here.symm.trans here'
    rfl

end Scanner

namespace Margin

variable {w : Margin} {s t t' : Scanner}

structure Ended (s t : Scanner) : Prop where
  ended : s.ended = true
  ended' : t.ended = true
  found : s.found = t.found

/-- At the end of the text both scanners find the end. -/
theorem Over.fetchEnd (past : w.Over s t) (found : (t.unroll t.column).fetchEnd = some t') :
    ∃ s', (s.unroll s.column).fetchEnd = some s' ∧ Ended s' t' := by
  rw [Scanner.fetchEnd_eq, Scanner.candidate_unroll] at found
  split at found
  · cases found
  · rename_i optional
    cases found
    have optional' := past.candidate.required (Bool.eq_false_iff.mpr optional)
    have column (u : Scanner) : (-1 : Int) ≤ u.column := by omega
    refine ⟨_, by rw [Scanner.fetchEnd_eq, Scanner.candidate_unroll, optional']; rfl, rfl, rfl, ?_⟩
    refine congrArg (Token.streamEnd :: ·) ?_
    change ((s.unroll s.column).unroll (-1)).found = ((t.unroll t.column).unroll (-1)).found
    rw [Scanner.unroll_unroll_end (column s), Scanner.unroll_unroll_end (column t)]
    exact (Scanner.found_unroll past.flowLevel past.indent past.outer past.found).symm

/-- A step of the scanner inside of margins is lost in the margin, or both scanners make it. -/
theorem Tracks.fetchNext (h : w.Tracks s t) (found : t.fetchNext = some t') :
    t'.Lost ∨ ∃ s', s.fetchNext = some s' ∧
      (Ended s' t' ∨ w.Tracks s' t' ∧ s'.cursor.rest.length < s.cursor.rest.length) := by
  obtain ⟨t₁, dropped, -⟩ := Option.bind_eq_some_iff.mp found
  obtain ⟨s₁, dropped', tracks⟩ := h.dropStale dropped
  obtain ⟨k, ks, same⟩ := Scanner.exists_of_dropStale dropped
  obtain ⟨k', ks', same'⟩ := Scanner.exists_of_dropStale dropped'
  have cursor : t₁.cursor = t.cursor := by rw [same]
  have cursor' : s₁.cursor = s.cursor := by rw [same']
  cases tracks with
  | inside more ends going =>
    obtain ⟨a, l, here⟩ := List.exists_cons_of_ne_nil more
    rw [here] at ends
    have here' : t.cursor.rest = a :: (l ++ w.back) := by
      rw [← cursor]
      change s₁.cursor.rest ++ w.back = _
      rw [here]
      rfl
    rw [Scanner.fetchNext_of_cons dropped here', unroll_scanner] at found
    rw [Scanner.fetchNext_of_cons dropped' (cursor' ▸ here)]
    have step := fetchFrom_steps (w := w) (s := s₁.unroll s₁.column)
      (by rwa [Scanner.cursor_unroll]) ends (Scanner.ended_unroll.trans going)
    refine (step t' found).imp_right fun ⟨s', first, tracks, within⟩ =>
      ⟨s', first, .inr ⟨tracks, ?_⟩⟩
    rw [← cursor', here, List.length_cons]
    exact Nat.lt_succ_of_le within.length_le
  | past past =>
    rw [Scanner.fetchNext_of_nil dropped' (cursor' ▸ past.rest)]
    cases rest : t.cursor.rest with
    | nil =>
      rw [Scanner.fetchNext_of_nil dropped rest] at found
      obtain ⟨s', first, ended⟩ := past.fetchEnd found
      exact .inr ⟨s', first, .inl ended⟩
    | cons a l =>
      rw [Scanner.fetchNext_of_cons dropped rest] at found
      have blank := past.near.blank past.rest
      rw [cursor, rest] at blank
      exact .inl (Scanner.lost_of_fetchFrom blank (by rw [Scanner.cursor_unroll, cursor, rest])
        (Scanner.ended_unroll.trans past.going') found)

end Margin

/-! ## All steps -/

namespace Scanner

variable {s t t' : Scanner}

theorem suffix_skipGap (s : Scanner) : s.skipGap.cursor.rest <:+ s.cursor.rest :=
  (reaches_gapFrom s.inFlow s.keyAllowed false s.cursor.rest s.cursor.mark).suffix

/-- A scanner that is lost finds the end, or is lost again. -/
theorem Lost.fetch (lost : t.Lost) (found : t.fetch = some t') : t'.ended = true ∨ t'.Lost := by
  rw [fetch_eq] at found
  obtain ⟨-, -, found⟩ := Option.bind_eq_some_iff.mp found
  obtain ⟨t₁, dropped, -⟩ := Option.bind_eq_some_iff.mp found
  obtain ⟨k, ks, same⟩ := exists_of_dropStale dropped
  have losing := lost.losing
  rw [isLosing, Bool.and_eq_true, List.all_eq_true] at losing
  have going : t₁.ended = false := by rw [same]; exact lost.going
  have cursor : t₁.cursor = t.skipGap.cursor := by rw [same]
  cases rest : t.skipGap.cursor.rest with
  | nil =>
    rw [fetchNext_of_nil dropped rest, fetchEnd_eq] at found
    split at found
    · cases found
    · cases found
      exact .inl rfl
  | cons a l =>
    rw [fetchNext_of_cons dropped rest] at found
    refine .inr (lost_of_fetchFrom (fun b mem => losing.1 b (t.suffix_skipGap.subset ?_))
      (by rw [cursor_unroll, cursor, rest]) (ended_unroll.trans going) found)
    rw [rest]
    exact mem

/-- A scanner that is lost stays so up to the end. -/
theorem Lost.final {n : Nat} (lost : t.Lost) (whole : (t.run n).2 = true) :
    (t.final n).any isLosing = true := by
  induction n generalizing t with
  | zero => cases whole
  | succ n ih =>
    rw [run] at whole
    rw [Scanner.final]
    cases step : t.fetch with
    | none =>
      rw [step] at whole
      cases whole
    | some t' =>
      rw [step] at whole
      dsimp only at whole ⊢
      split
      · exact lost.losing
      · rename_i going
        rw [if_neg going] at whole
        exact ih ((lost.fetch step).resolve_left going) whole

end Scanner

namespace Margin

variable {w : Margin} {s t : Scanner}

/-- A scanner inside of margins that finds the end, and no scalar of the margin, finds the tokens of
the text alone. -/
theorem run_eq_run {n k : Nat} (tracks : w.Tracks s.skipGap t.skipGap)
    (fresh : t.dropStale.isSome = true → s.dropStale.isSome = true) (whole : (t.run n).2 = true)
    (kept : (t.final n).any Scanner.isLosing = false) (enough : s.skipGap.cursor.rest.length < k) :
    s.run k = t.run n := by
  induction n generalizing s t k with
  | zero => cases whole
  | succ n ih =>
    obtain ⟨k, rfl⟩ : ∃ i, k = i + 1 := ⟨k - 1, by omega⟩
    rw [Scanner.run] at whole
    rw [Scanner.final] at kept
    cases step : t.fetch with
    | none =>
      rw [step] at whole
      cases whole
    | some t' =>
      rw [step] at whole kept
      dsimp only at whole kept
      obtain ⟨_, dropped, found⟩ := Option.bind_eq_some_iff.mp (t.fetch_eq ▸ step)
      obtain ⟨_, dropped'⟩ := Option.isSome_iff_exists.mp (fresh (by rw [dropped]; rfl))
      rcases tracks.fetchNext found with lost | ⟨s', found', ended | ⟨tracks', shorter⟩⟩
      · rw [if_neg (by rw [lost.going]; decide)] at whole kept
        rw [lost.final whole] at kept
        cases kept
      · have step' : s.fetch = some s' := by rw [s.fetch_eq, dropped']; exact found'
        rw [Scanner.run, Scanner.run, step, step']
        dsimp only
        rw [if_pos ended.ended, if_pos ended.ended', ended.found]
      · have step' : s.fetch = some s' := by rw [s.fetch_eq, dropped']; exact found'
        obtain ⟨going, going'⟩ := tracks'.going
        rw [if_neg (by rw [going']; decide)] at whole kept
        rw [Scanner.run, Scanner.run, step, step']
        dsimp only
        rw [if_neg (by rw [going]; decide), if_neg (by rw [going']; decide)]
        refine ih tracks'.skipGap (fun some => ?_) whole kept ?_
        · obtain ⟨_, dropped⟩ := Option.isSome_iff_exists.mp some
          obtain ⟨_, dropped', -⟩ := tracks'.dropStale dropped
          rw [dropped']
          rfl
        · exact (s'.suffix_skipGap.length_le.trans_lt shorter).trans_le (Nat.le_of_lt_succ enough)

end Margin

end RoomAudio.Yaml
