import Mathlib.Data.List.Forall2
import RoomAudio.Proofs.Yaml.Margin.Block
import RoomAudio.Proofs.Yaml.Margin.Quoted
import RoomAudio.Proofs.Yaml.Scanner

/-!
# The scanner inside of margins

Two scanners read the same text, one alone and one inside of margins. As long as there is text left
they find the same tokens, step by step. When the text is over the scanner inside of margins finds
the end as well, unless it reads on, and then it has a scalar that ends with a blank character.

## Main definitions

* `Yaml.Margin.scanner` — the state of a scanner inside of margins.
* `Yaml.Margin.Over` — the states of two scanners when the text is over.
* `Yaml.Margin.Tracks` — the states of two scanners that belong together.
-/

namespace RoomAudio.Yaml

open Text (isBlank)

namespace Scanner

variable {f : Candidate → Candidate} {m m' : Mark}

/-! ## Candidates at other places -/

theorem refresh_map (required : ∀ k, (f k).required = k.required)
    (stale : ∀ k, (f k).isStale m' = k.isStale m) (k : Option Candidate) :
    refresh m' (k.map f) = (refresh m k).map (Option.map f) := by
  cases k with
  | none => rfl
  | some k =>
    rw [Option.map_some, refresh, refresh, stale, required]
    split
    · split <;> rfl
    · rfl

theorem mapM_refresh_map (required : ∀ k, (f k).required = k.required)
    (stale : ∀ k, (f k).isStale m' = k.isStale m) (ks : List (Option Candidate)) :
    (ks.map (Option.map f)).mapM (refresh m') =
      (ks.mapM (refresh m)).map (List.map (Option.map f)) := by
  induction ks with
  | nil => rfl
  | cons k ks ih =>
    simp only [List.map_cons, List.mapM_cons, refresh_map required stale, ih]
    cases refresh m k <;> cases ks.mapM (refresh m) <;> rfl

end Scanner

namespace Margin

/-! ## The same state at another place -/

def candidate (w : Margin) (k : Candidate) : Candidate := { k with mark := w.mark k.mark }

def scanner (w : Margin) (s : Scanner) : Scanner :=
  { s with
    cursor := w.cursor s.cursor, candidate := s.candidate.map w.candidate
    outerCandidates := s.outerCandidates.map (Option.map w.candidate) }

variable {w : Margin} {s t : Scanner} {c d : Cursor} {m : Mark} {l : List Char} {token : Token}

theorem isStale_candidate (k : Candidate) (m : Mark) :
    (w.candidate k).isStale (w.mark m) = k.isStale m := by
  simp [Candidate.isStale, candidate, mark, Nat.add_assoc]

/-- Inside of margins the same candidates are dropped. -/
theorem dropStale_scanner (s : Scanner) : (w.scanner s).dropStale = s.dropStale.map w.scanner := by
  have first : Scanner.refresh (w.scanner s).cursor.mark (w.scanner s).candidate =
      (Scanner.refresh s.cursor.mark s.candidate).map (Option.map w.candidate) :=
    Scanner.refresh_map (f := w.candidate) (fun _ => rfl) (isStale_candidate · _) _
  have others : (w.scanner s).outerCandidates.mapM (Scanner.refresh (w.scanner s).cursor.mark) =
      (s.outerCandidates.mapM (Scanner.refresh s.cursor.mark)).map
        (List.map (Option.map w.candidate)) :=
    Scanner.mapM_refresh_map (f := w.candidate) (fun _ => rfl) (isStale_candidate · _) _
  rw [Scanner.dropStale, first, others, Scanner.dropStale]
  cases Scanner.refresh s.cursor.mark s.candidate with
  | none => rfl
  | some k =>
    cases s.outerCandidates.mapM (Scanner.refresh s.cursor.mark) <;> rfl

theorem skip_scanner {n : Nat} (h : n ≤ s.cursor.rest.length) :
    (w.scanner s).skip n = w.scanner (s.skip n) := by
  have place : (w.scanner s).cursor.skip n = w.cursor (s.cursor.skip n) := w.skip_cursor h
  rw [Scanner.skip, place]
  rfl

/-- Inside of margins the same blocks are closed. -/
theorem closeBlocks_scanner (column : Int) (s : Scanner) (outer : List Int) :
    (w.scanner s).closeBlocks column outer = w.scanner (s.closeBlocks column outer) := by
  induction outer generalizing s with
  | nil =>
    rw [Scanner.closeBlocks, Scanner.closeBlocks]
    split <;> split <;> first | rfl | contradiction
  | cons i outer ih =>
    rw [Scanner.closeBlocks, Scanner.closeBlocks]
    by_cases deep : column < s.indent
    · rw [if_pos deep, if_pos (show column < (w.scanner s).indent from deep), ← ih]
      rfl
    · rw [if_neg deep, if_neg (show ¬column < (w.scanner s).indent from deep)]

theorem unroll_scanner (column : Int) (s : Scanner) :
    (w.scanner s).unroll column = w.scanner (s.unroll column) := by
  by_cases flow : s.inFlow = true
  · rw [Scanner.unroll, Scanner.unroll, if_pos flow,
      if_pos (show (w.scanner s).inFlow = true from flow)]
  · rw [Scanner.unroll, Scanner.unroll, if_neg flow,
      if_neg (show ¬(w.scanner s).inFlow = true from flow)]
    exact closeBlocks_scanner column s s.outer

theorem roll_scanner (s : Scanner) (column position : Nat) (t : Token) :
    (w.scanner s).roll column position t = w.scanner (s.roll column position t) := by
  have same : (!(w.scanner s).inFlow && (w.scanner s).indent < column) =
      (!s.inFlow && s.indent < column) := rfl
  rw [Scanner.roll, Scanner.roll, same]
  split <;> rfl

/-! ## Candidates that may be gone -/

/-- What is left of a candidate further on: all of it, or nothing if it need not be a key. -/
inductive Fades (w : Margin) : Option Candidate → Option Candidate → Prop where
  | kept (k : Option Candidate) : w.Fades k (k.map w.candidate)
  | dropped {k : Candidate} (optional : k.required = false) : w.Fades (some k) none

/-- A candidate that is stale stays so further on. -/
theorem isStale_of_before {k : Candidate} {m' : Mark} (before : (w.mark m).Before m')
    (stale : k.isStale m = true) : (w.candidate k).isStale m' = true := by
  rw [← isStale_candidate (w := w), Candidate.isStale, Bool.or_eq_true, decide_eq_true_eq,
    decide_eq_true_eq] at stale
  rw [Candidate.isStale, Bool.or_eq_true, decide_eq_true_eq, decide_eq_true_eq]
  have line := before.line
  have index := before.index
  omega

namespace Fades

variable {k k' : Option Candidate} {m' : Mark}

theorem refresh (h : w.Fades k k') (before : (w.mark m).Before m') {j' : Option Candidate}
    (found : Scanner.refresh m' k' = some j') :
    ∃ j, Scanner.refresh m k = some j ∧ w.Fades j j' := by
  have optional {k : Candidate} (h : k.required = false) :
      ∃ j, Scanner.refresh m (some k) = some j ∧ w.Fades j none := by
    rw [Scanner.refresh, h]
    split
    · exact ⟨none, rfl, .kept none⟩
    · exact ⟨some k, rfl, .dropped h⟩
  cases h with
  | dropped required =>
    cases found
    exact optional required
  | kept =>
    cases k with
    | none =>
      cases found
      exact ⟨none, rfl, .kept none⟩
    | some k =>
      rw [Option.map_some, Scanner.refresh] at found
      split at found
      · split at found
        · cases found
        · rename_i required
          cases found
          exact optional (Bool.eq_false_iff.mpr required)
      · rename_i fresh
        cases found
        have fresh' : ¬k.isStale m = true := fun stale => fresh (isStale_of_before before stale)
        exact ⟨some k, if_neg fresh', .kept (some k)⟩

theorem required (h : w.Fades k k') (optional : k'.any Candidate.required = false) :
    k.any Candidate.required = false := by
  cases h with
  | dropped required => exact required
  | kept =>
    cases k with
    | none => rfl
    | some k => exact optional

/-- Candidates fade one by one. -/
theorem mapM_refresh {ks ks' : List (Option Candidate)} (h : List.Forall₂ w.Fades ks ks')
    (before : (w.mark m).Before m') {js' : List (Option Candidate)}
    (found : ks'.mapM (Scanner.refresh m') = some js') :
    ∃ js, ks.mapM (Scanner.refresh m) = some js ∧ List.Forall₂ w.Fades js js' := by
  induction h generalizing js' with
  | nil =>
    cases found
    exact ⟨[], rfl, .nil⟩
  | cons fades _ ih =>
    rw [List.mapM_cons] at found
    obtain ⟨j', first, found⟩ := Option.bind_eq_some_iff.mp found
    obtain ⟨js', others, found⟩ := Option.bind_eq_some_iff.mp found
    cases found
    obtain ⟨j, first', fades'⟩ := fades.refresh before first
    obtain ⟨js, others', fades''⟩ := ih others
    refine ⟨j :: js, ?_, .cons fades' fades''⟩
    rw [List.mapM_cons, first', others']
    rfl

end Fades

/-! ## States that belong together -/

/-- The text is over, or nothing but the margin is left. -/
structure Over (w : Margin) (s t : Scanner) : Prop where
  rest : s.cursor.rest = []
  near : w.Near s.cursor t.cursor
  flowLevel : t.flowLevel = s.flowLevel
  indent : t.indent = s.indent
  outer : t.outer = s.outer
  found : t.found = s.found
  candidate : w.Fades s.candidate t.candidate
  outerCandidates : List.Forall₂ w.Fades s.outerCandidates t.outerCandidates
  going : s.ended = false
  going' : t.ended = false

/-- The states of two scanners, of the text alone and inside of margins. -/
inductive Tracks (w : Margin) : Scanner → Scanner → Prop where
  | inside {s : Scanner} (more : s.cursor.rest ≠ []) (ends : EndsVisibly s.cursor.rest)
      (going : s.ended = false) : w.Tracks s (w.scanner s)
  | past {s t : Scanner} (past : w.Over s t) : w.Tracks s t

namespace Tracks

/-- Two scanners that have gone to places that belong together. -/
theorem goto (near : w.Near c d) (going : s.ended = false) :
    w.Tracks (s.goto c) ((w.scanner s).goto d) := by
  cases near with
  | inside more ends => exact .inside (s := s.goto c) more ends going
  | past blank before =>
    exact .past {
      rest := rfl, near := .past blank before, flowLevel := rfl, indent := rfl, outer := rfl
      found := rfl, candidate := .kept _, going, going' := going
      outerCandidates := List.forall₂_map_right_iff.mpr
        (List.forall₂_same.mpr fun k _ => .kept k) }

theorem scanner (ends : EndsVisibly s.cursor.rest) (going : s.ended = false) :
    w.Tracks s (w.scanner s) := .goto (s := s) (near_cursor ends) going

theorem going (h : w.Tracks s t) : s.ended = false ∧ t.ended = false := by
  cases h with
  | inside more ends going => exact ⟨going, going⟩
  | past past => exact ⟨past.going, past.going'⟩

theorem push (h : w.Tracks s t) (token : Token) : w.Tracks (s.push token) (t.push token) := by
  cases h with
  | inside more ends going => exact .inside (s := s.push token) more ends going
  | past past => exact .past { past with found := congrArg (token :: ·) past.found }

/-- Whether a key may begin is of no matter when the text is over. -/
theorem allow (h : w.Tracks s t) {allowed allowed' : Bool}
    (same : s.cursor.rest ≠ [] → allowed' = allowed) :
    w.Tracks { s with keyAllowed := allowed } { t with keyAllowed := allowed' } := by
  cases h with
  | inside more ends going =>
    rw [same more]
    exact .inside (s := { s with keyAllowed := allowed }) more ends going
  | past past => exact .past { past with }

/-- Passing gaps keeps states together. -/
theorem skipGap (h : w.Tracks s t) : w.Tracks s.skipGap t.skipGap := by
  cases h with
  | inside more ends going =>
    obtain ⟨near, same⟩ := Scanner.gapFrom_near (w := w) s.inFlow s.keyAllowed false ends
      s.cursor.mark
    exact (Tracks.goto near going).allow same
  | past past =>
    have short : Scanner.gapFrom s.inFlow s.keyAllowed false s.cursor.rest s.cursor.mark =
        (⟨[], s.cursor.mark⟩, s.keyAllowed) := by
      rw [past.rest, Scanner.gapFrom]
    have place : s.skipGap.cursor = s.cursor := by
      rw [Scanner.skipGap, short, ← past.rest]
    refine .past { past with rest := place ▸ past.rest, near := ?_ }
    rw [place]
    exact past.near.reaches past.rest (Scanner.reaches_gapFrom ..)

/-- A stale candidate inside of margins is one of the text alone, or that text is over. -/
theorem dropStale (h : w.Tracks s t) {t' : Scanner} (found : t.dropStale = some t') :
    ∃ s', s.dropStale = some s' ∧ w.Tracks s' t' := by
  cases h with
  | inside more ends going =>
    rw [dropStale_scanner] at found
    obtain ⟨s', same, rfl⟩ := Option.map_eq_some_iff.mp found
    refine ⟨s', same, ?_⟩
    obtain ⟨k, first, same⟩ := Option.bind_eq_some_iff.mp same
    obtain ⟨ks, others, same⟩ := Option.bind_eq_some_iff.mp same
    cases same
    exact .inside (s := { s with candidate := k, outerCandidates := ks }) more ends going
  | past past =>
    obtain ⟨k', first, found⟩ := Option.bind_eq_some_iff.mp found
    obtain ⟨ks', others, found⟩ := Option.bind_eq_some_iff.mp found
    cases found
    have before := past.near.before
    obtain ⟨k, first', fades⟩ := past.candidate.refresh before first
    obtain ⟨ks, others', fades'⟩ := Fades.mapM_refresh past.outerCandidates before others
    refine ⟨{ s with candidate := k, outerCandidates := ks }, ?_, .past { past with
      candidate := fades, outerCandidates := fades' }⟩
    rw [Scanner.dropStale, first', others']
    rfl

end Tracks

end Margin

end RoomAudio.Yaml
