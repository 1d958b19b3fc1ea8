import RoomAudio.Proofs.Yaml.Margin.Scanner

/-!
# Steps of the scanner inside of margins

A step of the scanner inside of margins is one of the scanner of the text alone, unless it takes a
blank character of the margin into a scalar. From then on it finds such scalars only, up to the end.

## Main definitions

* `Yaml.Scanner.isLosing` — nothing visible is left, and the last scalar ends with a blank
  character.
* `Yaml.Scanner.Lost` — a scanner that stays so up to the end of the text.
* `Yaml.Margin.Steps` — what a step of the scanner inside of margins leads to.
* `Yaml.Margin.fetchFrom_steps` — a step where there is text left.
-/

namespace RoomAudio.Yaml

open Text (isBlank)

/-- A scalar that is not in quotes and whose last character is blank. -/
def Token.trailsBlank : Token → Bool
  | .scalar .plain text => Yaml.trailsBlank text
  | .scalar .literal text => Yaml.trailsBlank text
  | .scalar .folded text => Yaml.trailsBlank text
  | _ => false

namespace Scanner

/-- Whether nothing visible is left behind a scalar that ends with a blank character. -/
def isLosing (s : Scanner) : Bool :=
  s.cursor.rest.all isBlank && s.found.head?.any Token.trailsBlank

/-- A scanner that has taken the margin into a scalar. -/
structure Lost (s : Scanner) : Prop where
  going : s.ended = false
  losing : s.isLosing = true

variable {s : Scanner} {c : Cursor} {token : Token} {column : Int}

theorem Lost.push (token : Token) (going : s.ended = false) (blank : ∀ a ∈ c.rest, isBlank a = true)
    (ends : token.trailsBlank = true) (allowed : Bool) :
    Lost { (s.goto c).push token with keyAllowed := allowed } where
  going := going
  losing := by
    rw [isLosing, Bool.and_eq_true, List.all_eq_true]
    exact ⟨blank, ends⟩

/-! ## What a step leaves as it is -/

/-- The end of blocks changes nothing but the blocks and the tokens. -/
theorem exists_unroll (column : Int) (s : Scanner) :
    ∃ found count indent outer, s.unroll column = { s with found, count, indent, outer } := by
  have blocks (l : List Int) (s : Scanner) :
      ∃ found count indent outer,
        s.closeBlocks column l = { s with found, count, indent, outer } := by
    induction l generalizing s with
    | nil =>
      rw [closeBlocks]
      split
      · exact ⟨_, _, _, _, rfl⟩
      · exact ⟨_, _, _, _, rfl⟩
    | cons i l ih =>
      rw [closeBlocks]
      split
      · obtain ⟨found, count, indent, outer, same⟩ :=
          ih { s.push .blockEnd with indent := i, outer := l }
        exact ⟨found, count, indent, outer, same⟩
      · exact ⟨_, _, _, _, rfl⟩
  rw [unroll]
  split
  · exact ⟨_, _, _, _, rfl⟩
  · exact blocks s.outer s

@[simp] theorem cursor_unroll : (s.unroll column).cursor = s.cursor := by
  obtain ⟨found, count, indent, outer, same⟩ := exists_unroll column s
  rw [same]

@[simp] theorem ended_unroll : (s.unroll column).ended = s.ended := by
  obtain ⟨found, count, indent, outer, same⟩ := exists_unroll column s
  rw [same]

@[simp] theorem candidate_unroll : (s.unroll column).candidate = s.candidate := by
  obtain ⟨found, count, indent, outer, same⟩ := exists_unroll column s
  rw [same]

@[simp] theorem cursor_roll (column position : Nat) :
    (s.roll column position token).cursor = s.cursor := by
  rw [roll]
  split <;> rfl

@[simp] theorem ended_roll (column position : Nat) :
    (s.roll column position token).ended = s.ended := by
  rw [roll]
  split <;> rfl

theorem dropCandidate_eq (s : Scanner) : s.dropCandidate =
    if s.candidate.any Candidate.required then none else some { s with candidate := none } := by
  rw [dropCandidate]
  cases same : s.candidate with
  | none =>
    have unchanged : { s with candidate := none } = s := by rw [← same]
    simp [unchanged]
  | some k => rfl

theorem saveCandidate_eq (s : Scanner) : s.saveCandidate =
    if s.keyAllowed then
      if s.candidate.any Candidate.required then none
      else
        some { s with
          candidate := some ⟨!s.inFlow && s.indent == s.column, s.count, s.cursor.mark⟩ }
    else some s := by
  rw [saveCandidate, dropCandidate_eq]
  split
  · split <;> rfl
  · rfl

/-- The colon behind a candidate. -/
theorem fetchValue_of_some {k : Candidate} (h : s.candidate = some k) : s.fetchValue =
    let s := (s.insertAt k.position .key).roll k.mark.column k.position .blockRecordStart
    some { (s.skip 1).push .value with candidate := none, keyAllowed := false } := by
  rw [fetchValue, h]

/-- A colon without a key before it. -/
theorem fetchValue_of_none (h : s.candidate = none) : s.fetchValue =
    if !s.inFlow && !s.keyAllowed then none
    else
      let s := s.roll s.column s.count .blockRecordStart
      some { (s.skip 1).push .value with keyAllowed := !s.inFlow } := by
  rw [fetchValue, h]
  rfl

end Scanner

namespace Margin

variable {w : Margin} {s : Scanner} {x y : Option Scanner} {a : Char} {l : List Char} {m : Mark}
  {c d : Cursor} {token : Token}

/-! ## Steps -/

/-- A step of the scanner inside of margins is lost in the margin, or a step of the scanner of the
text alone. -/
def Steps (w : Margin) (l : List Char) (x y : Option Scanner) : Prop :=
  ∀ t, y = some t → t.Lost ∨ ∃ s, x = some s ∧ w.Tracks s t ∧ s.cursor.rest <:+ l

/-- The candidate changes, in the same way inside of margins. -/
def Carries (w : Margin) (s : Scanner) (x y : Option Scanner) : Prop :=
  ∀ t, y = some t →
    ∃ k, x = some { s with candidate := k } ∧ t = w.scanner { s with candidate := k }

namespace Steps

theorem nothing : w.Steps l x none := by
  rintro t ⟨⟩

theorem found {t : Scanner} (tracks : w.Tracks s t) (within : s.cursor.rest <:+ l) :
    w.Steps l (some s) (some t) := by
  rintro u ⟨⟩
  exact .inr ⟨s, rfl, tracks, within⟩

/-- The state has changed in the same way inside of margins, and a character has been passed. -/
theorem passed {s' : Scanner} (here : s.cursor.rest = a :: l) (ends : EndsVisibly (a :: l))
    (going : s'.ended = false) (place : s'.cursor = s.cursor.skip 1) :
    w.Steps l (some s') (some (w.scanner s')) := by
  have rest : s'.cursor.rest = l := by rw [place, Cursor.skip, here]; rfl
  exact .found (.scanner (rest ▸ ends.tail) going) (rest ▸ List.suffix_refl l)

theorem ite {p : Prop} [Decidable p] {x' y' : Option Scanner} (yes : p → w.Steps l x y)
    (no : ¬p → w.Steps l x' y') : w.Steps l (if p then x else x') (if p then y else y') := by
  split
  · exact yes ‹_›
  · exact no ‹_›

/-- A token has been read, and nothing else happens. -/
theorem read (near : w.Near c d) (within : c.rest <:+ l) (going : s.ended = false) (token : Token)
    (allowed : Bool) :
    w.Steps l (some { (s.goto c).push token with keyAllowed := allowed })
      (some { ((w.scanner s).goto d).push token with keyAllowed := allowed }) :=
  .found (((Tracks.goto near going).push token).allow fun _ => rfl) within

/-- A reader has found a token that does not go on into the margin. -/
theorem follows {α : Type} {x y : Option (α × Cursor)} (h : w.Follows l x y) (ends : EndsVisibly l)
    (going : s.ended = false) (token : α → Token) (allowed : Bool) :
    w.Steps l (x >>= fun p => some { (s.goto p.2).push (token p.1) with keyAllowed := allowed })
      (y >>= fun p =>
        some { ((w.scanner s).goto p.2).push (token p.1) with keyAllowed := allowed }) := by
  intro t found
  obtain ⟨⟨v, d⟩, reads, found⟩ := Option.bind_eq_some_iff.mp found
  obtain ⟨c, same, rfl, within⟩ := h v d reads
  rw [same]
  exact read (near_cursor (ends.of_suffix within)) within going (token v) allowed t found

end Steps

namespace Carries

theorem dropCandidate (s : Scanner) : w.Carries s s.dropCandidate (w.scanner s).dropCandidate := by
  intro t found
  have required : (w.scanner s).candidate.any Candidate.required =
      s.candidate.any Candidate.required := by
    change (s.candidate.map w.candidate).any _ = _
    cases s.candidate <;> rfl
  rw [Scanner.dropCandidate_eq, required] at found
  rw [Scanner.dropCandidate_eq]
  split at found
  · cases found
  · rename_i optional
    cases found
    exact ⟨none, if_neg optional, rfl⟩

theorem saveCandidate (s : Scanner) : w.Carries s s.saveCandidate (w.scanner s).saveCandidate := by
  intro t found
  have required : (w.scanner s).candidate.any Candidate.required =
      s.candidate.any Candidate.required := by
    change (s.candidate.map w.candidate).any _ = _
    cases s.candidate <;> rfl
  have allowed : (w.scanner s).keyAllowed = s.keyAllowed := rfl
  rw [Scanner.saveCandidate_eq, required, allowed] at found
  rw [Scanner.saveCandidate_eq]
  split at found
  · rename_i allowed
    split at found
    · cases found
    · rename_i optional
      cases found
      exact ⟨_, by rw [if_pos allowed, if_neg optional], rfl⟩
  · rename_i noKey
    cases found
    exact ⟨s.candidate, if_neg noKey, rfl⟩

theorem bind {f g : Scanner → Option Scanner} (h : w.Carries s x y)
    (next : ∀ k,
      w.Steps l (f { s with candidate := k }) (g (w.scanner { s with candidate := k }))) :
    w.Steps l (x >>= f) (y >>= g) := by
  intro u found
  obtain ⟨t, first, found⟩ := Option.bind_eq_some_iff.mp found
  obtain ⟨k, same, rfl⟩ := h t first
  rw [same]
  exact next k u found

end Carries

/-! ## The steps one by one -/

section Fetch

/-- With another candidate a scanner passes the same character. -/
theorem skip_one (here : s.cursor.rest = a :: l) (k : Option Candidate) :
    (w.scanner { s with candidate := k }).skip 1 =
      w.scanner (({ s with candidate := k } : Scanner).skip 1) :=
  skip_scanner (by simp [here])

theorem rest_skip_one (here : s.cursor.rest = a :: l) : (s.cursor.skip 1).rest = l := by
  rw [Cursor.skip, here]
  rfl

variable (here : s.cursor.rest = a :: l) (ends : EndsVisibly (a :: l)) (going : s.ended = false)

include here ends going

theorem fetchOpening_steps (token : Token) :
    w.Steps l (s.fetchOpening token) ((w.scanner s).fetchOpening token) := by
  refine (Carries.saveCandidate s).bind fun k => ?_
  rw [skip_one here]
  exact .passed here ends going rfl

theorem fetchClosing_steps (token : Token) :
    w.Steps l (s.fetchClosing token) ((w.scanner s).fetchClosing token) := by
  obtain ⟨cursor, flowLevel, indent, outer, keyAllowed, candidate, outerCandidates⟩ := s
  refine (Carries.dropCandidate _).bind fun k => ?_
  rw [skip_one here]
  cases outerCandidates with
  | nil => exact .passed here ends going rfl
  | cons => exact .passed here ends going rfl

theorem fetchComma_steps : w.Steps l s.fetchComma (w.scanner s).fetchComma := by
  refine (Carries.dropCandidate s).bind fun k => ?_
  rw [skip_one here]
  exact .passed here ends going rfl

theorem fetchEntry_steps : w.Steps l s.fetchEntry (w.scanner s).fetchEntry := by
  refine .ite (x := none >>= _) (y := none >>= _) (fun _ => .nothing) fun _ => ?_
  change w.Steps l ((s.roll s.column s.count .blockListStart).dropCandidate >>= _)
    (((w.scanner s).roll s.column s.count .blockListStart).dropCandidate >>= _)
  have here' : (s.roll s.column s.count .blockListStart).cursor.rest = a :: l := by
    rw [Scanner.cursor_roll, here]
  rw [roll_scanner]
  refine (Carries.dropCandidate _).bind fun k => ?_
  rw [skip_one here']
  exact .passed here' ends ((Scanner.ended_roll _ _).trans going) rfl

theorem fetchKey_steps : w.Steps l s.fetchKey (w.scanner s).fetchKey := by
  refine .ite (x := none >>= _) (y := none >>= _) (fun _ => .nothing) fun _ => ?_
  change w.Steps l ((s.roll s.column s.count .blockRecordStart).dropCandidate >>= _)
    (((w.scanner s).roll s.column s.count .blockRecordStart).dropCandidate >>= _)
  have here' : (s.roll s.column s.count .blockRecordStart).cursor.rest = a :: l := by
    rw [Scanner.cursor_roll, here]
  rw [roll_scanner]
  refine (Carries.dropCandidate _).bind fun k => ?_
  rw [skip_one here']
  exact .passed here' ends ((Scanner.ended_roll _ _).trans going) rfl

theorem fetchValue_steps : w.Steps l s.fetchValue (w.scanner s).fetchValue := by
  cases candidate : s.candidate with
  | none =>
    have candidate' : (w.scanner s).candidate = none := by rw [scanner, candidate]; rfl
    have here' : (s.roll s.column s.count .blockRecordStart).cursor.rest = a :: l := by
      rw [Scanner.cursor_roll, here]
    have roll : (w.scanner s).roll (w.scanner s).column (w.scanner s).count .blockRecordStart =
        w.scanner (s.roll s.column s.count .blockRecordStart) := roll_scanner ..
    rw [Scanner.fetchValue_of_none candidate, Scanner.fetchValue_of_none candidate']
    refine .ite (fun _ => .nothing) fun _ => ?_
    dsimp only
    rw [roll, skip_scanner (by rw [here']; simp)]
    exact .passed here' ends ((Scanner.ended_roll _ _).trans going) rfl
  | some k =>
    have candidate' : (w.scanner s).candidate = some (w.candidate k) := by
      rw [scanner, candidate]
      rfl
    have here' : ((s.insertAt k.position .key).roll k.mark.column k.position
        .blockRecordStart).cursor.rest = a :: l := by
      rw [Scanner.cursor_roll]
      exact here
    have roll : ((w.scanner s).insertAt (w.candidate k).position .key).roll
        (w.candidate k).mark.column (w.candidate k).position .blockRecordStart =
        w.scanner ((s.insertAt k.position .key).roll k.mark.column k.position .blockRecordStart) :=
      roll_scanner (s.insertAt k.position .key) ..
    rw [Scanner.fetchValue_of_some candidate, Scanner.fetchValue_of_some candidate']
    dsimp only
    rw [roll, skip_scanner (by rw [here']; simp)]
    exact .passed here' ends ((Scanner.ended_roll _ _).trans going) rfl

theorem fetchMarker_steps (marker : startsMarker (a :: l) = true) (token : Token) :
    w.Steps l (s.fetchMarker token) ((w.scanner s).fetchMarker token) := by
  have near : w.Near (s.cursor.skip 3) ((w.cursor s.cursor).skip 3) := by
    rw [skip_cursor w (by rw [here]; exact length_of_startsMarker marker)]
    exact near_cursor ((here ▸ ends).of_suffix (List.drop_suffix 3 _))
  have within : (s.cursor.skip 3).rest <:+ l := by
    rw [← rest_skip_one here]
    exact List.drop_suffix_drop_left _ (by decide)
  have cursor : (s.unroll (-1)).cursor = s.cursor := Scanner.cursor_unroll
  rw [← cursor] at near within
  rw [Scanner.fetchMarker, Scanner.fetchMarker, unroll_scanner]
  refine (Carries.dropCandidate _).bind fun k => ?_
  exact .read (s := { s.unroll (-1) with candidate := k }) near within
    (Scanner.ended_unroll.trans going) token false

theorem fetchDirective_steps : w.Steps l s.fetchDirective (w.scanner s).fetchDirective := by
  have skip : (w.cursor s.cursor).skip 1 = w.cursor (s.cursor.skip 1) :=
    w.skip_cursor (by simp [here])
  rw [Scanner.fetchDirective, Scanner.fetchDirective, unroll_scanner]
  refine (Carries.dropCandidate _).bind fun k => ?_
  intro t found
  obtain ⟨⟨token, e⟩, reads, found⟩ := Option.bind_eq_some_iff.mp found
  change readDirective ((w.cursor (s.unroll (-1)).cursor).skip 1) = _ at reads
  rw [Scanner.cursor_unroll, skip] at reads
  obtain ⟨d, reads', near, within⟩ :=
    readDirective_near (by rw [rest_skip_one here]; exact ends.tail) reads
  rw [rest_skip_one here] at within
  rw [Scanner.cursor_unroll, reads']
  exact Steps.read (s := { s.unroll (-1) with candidate := k }) near within
    (Scanner.ended_unroll.trans going) token false t found

theorem fetchName_steps (token : List Char → Token) :
    w.Steps l (s.fetchName token) ((w.scanner s).fetchName token) := by
  have skip : (w.cursor s.cursor).skip 1 = w.cursor (s.cursor.skip 1) :=
    w.skip_cursor (by simp [here])
  have name := readName_follows (w := w) (s.cursor.skip 1)
  rw [rest_skip_one here, ← skip] at name
  refine (Carries.saveCandidate s).bind fun k => ?_
  exact .follows (s := { s with candidate := k }) name ends.tail going token false

theorem fetchTag_steps : w.Steps l s.fetchTag (w.scanner s).fetchTag := by
  have tag := readTag_follows (w := w) s.inFlow s.cursor
  rw [here, List.tail_cons] at tag
  refine (Carries.saveCandidate s).bind fun k => ?_
  exact .follows (s := { s with candidate := k }) tag ends.tail going (fun p => .tag p.1 p.2) false

theorem fetchQuoted_steps (style : Style) :
    w.Steps l (s.fetchQuoted style) ((w.scanner s).fetchQuoted style) := by
  have skip : (w.cursor s.cursor).skip 1 = w.cursor (s.cursor.skip 1) :=
    w.skip_cursor (by simp [here])
  have ends' : EndsVisibly (s.cursor.skip 1).rest := rest_skip_one here ▸ ends.tail
  have single := readSingleQuoted_follows (w := w) ends'
  have double := readDoubleQuoted_follows (w := w) ends'
  rw [rest_skip_one here, ← skip] at single double
  refine (Carries.saveCandidate s).bind fun k => .ite (fun _ => ?_) fun _ => ?_
  · exact .follows (s := { s with candidate := k }) single ends.tail going (.scalar style) false
  · exact .follows (s := { s with candidate := k }) double ends.tail going (.scalar style) false

theorem fetchBlock_steps (style : Style) (block : style = .literal ∨ style = .folded) :
    w.Steps l (s.fetchBlock style) ((w.scanner s).fetchBlock style) := by
  have skip : (w.cursor s.cursor).skip 1 = w.cursor (s.cursor.skip 1) :=
    w.skip_cursor (by simp [here])
  refine (Carries.dropCandidate s).bind fun k => ?_
  intro t found
  obtain ⟨⟨text, d⟩, reads, found⟩ := Option.bind_eq_some_iff.mp found
  change readBlock style s.indent ((w.cursor s.cursor).skip 1) = _ at reads
  rw [skip] at reads
  rcases readBlock_near (by rw [rest_skip_one here]; exact ends.tail) reads with
    ⟨c, reads', near, within⟩ | ⟨blank, lost⟩
  · rw [rest_skip_one here] at within
    rw [reads']
    exact Steps.read (s := { s with candidate := k }) near within going (.scalar style text) true t
      found
  · cases found
    have ends : Token.trailsBlank (.scalar style text) = true := by
      rcases block with rfl | rfl <;> exact lost
    exact .inl (.push (s := w.scanner { s with candidate := k }) _ going blank ends true)

theorem fetchPlain_steps (starts : Scanner.startsPlain s.inFlow a l = true)
    (unmarked : (s.column == 0 && startsMarker (a :: l)) = false) :
    w.Steps l s.fetchPlain (w.scanner s).fetchPlain := by
  have place : s.cursor = ⟨a :: l, s.cursor.mark⟩ := by rw [← here]
  refine (Carries.saveCandidate s).bind fun k => ?_
  intro t found
  obtain ⟨p, reads, found⟩ := Option.bind_eq_some_iff.mp found
  cases found
  change readPlain s.inFlow (s.indent + 1) (w.cursor s.cursor) = _ at reads
  rw [place] at reads
  rcases plainFrom_near ends (by simp) reads with
    ⟨q, reads', text, near, -, broken⟩ | ⟨blank, lost⟩
  · have within := suffix_of_readPlain starts unmarked reads'
    have same : readPlain s.inFlow (s.indent + 1) s.cursor = some q := by rw [place]; exact reads'
    have tracks := ((Tracks.goto (s := { s with candidate := k }) near going).push
      (.scalar .plain q.text)).allow fun more => (broken more).symm
    rw [text] at tracks
    refine .inr ⟨_, Option.bind_eq_some_iff.mpr ⟨q, same, ?_⟩, tracks, within⟩
    rw [text]
    rfl
  · exact .inl (.push (s := w.scanner { s with candidate := k }) (.scalar .plain p.text)
      going blank lost p.broken)

omit here ends in
/-- A plain scalar that goes on into the margin, although nothing but dashes and dots stands in
front of it. -/
theorem fetchPlain_dashes (here : s.cursor.rest = a :: l)
    (starts : Scanner.startsPlain s.inFlow a (l ++ w.back) = true)
    (unmarked : startsMarker (a :: (l ++ w.back)) = false) (all : ∀ b ∈ l, b = '-' ∨ b = '.')
    (noGap : startsGap w.back = false) : w.Steps l x (w.scanner s).fetchPlain := by
  intro t found
  obtain ⟨t', saved, found⟩ := Option.bind_eq_some_iff.mp found
  obtain ⟨k, -, rfl⟩ := Carries.saveCandidate s t' saved
  obtain ⟨p, reads, found⟩ := Option.bind_eq_some_iff.mp found
  cases found
  change readPlain s.inFlow (s.indent + 1)
    ⟨s.cursor.rest ++ w.back, w.mark s.cursor.mark⟩ = _ at reads
  rw [here] at reads
  obtain ⟨blank, lost⟩ := readPlain_dashes starts (by rw [unmarked, Bool.and_false]) all noGap reads
  exact .inl (.push (s := w.scanner { s with candidate := k }) (.scalar .plain p.text)
    going blank lost p.broken)

end Fetch

/-! ## Looking ahead -/

/-- What is seen by looking ahead is the same inside of margins, or it is the margin, and dashes and
dots in front of it. -/
theorem lookahead (w : Margin) (flow : Bool) (a : Char) (l : List Char) :
    (startsMarker (a :: (l ++ w.back)) = startsMarker (a :: l) ∧
      (a == '-' && startsGap (l ++ w.back)) = (a == '-' && startsGap l) ∧
      ∀ b, b = '?' ∨ b = ':' →
        (a == b && (flow || startsGap (l ++ w.back))) = (a == b && (flow || startsGap l))) ∨
    (startsMarker (a :: (l ++ w.back)) = false ∧ startsGap (l ++ w.back) = false ∧
      (∀ b ∈ l, b = '-' ∨ b = '.') ∧ startsGap w.back = false ∧
      (a = '-' ∨ a = '.' ∨ (a = '?' ∨ a = ':') ∧ flow = false)) := by
  by_cases marker : startsMarker (a :: (l ++ w.back)) = startsMarker (a :: l)
  · by_cases gap : startsGap (l ++ w.back) = startsGap l
    · rw [gap]
      exact .inl ⟨marker, rfl, fun _ _ => rfl⟩
    · obtain ⟨rfl, noGap⟩ : l = [] ∧ startsGap w.back = false := by
        rw [startsGap_append] at gap
        cases l with
        | nil => exact ⟨rfl, by simpa [startsGap] using gap⟩
        | cons b l => simp at gap
      have unmarked : startsMarker [a] = false := by simp [startsMarker]
      rw [unmarked] at marker
      rw [marker, unmarked, List.nil_append, noGap]
      by_cases kind : a = '-' ∨ a = '.' ∨ (a = '?' ∨ a = ':') ∧ flow = false
      · exact .inr ⟨rfl, rfl, by simp, rfl, kind⟩
      · refine .inl ⟨rfl, by grind, fun b mark => ?_⟩
        grind
  · have short : startsMarker (a :: l) = true := by
      by_contra unmarked
      have long := mt (startsMarker_of_append (w := w) (l := a :: l)) unmarked
      rw [List.cons_append, Bool.not_eq_true] at long
      rw [Bool.not_eq_true] at unmarked
      exact marker (long.trans unmarked.symm)
    have long : startsMarker (a :: (l ++ w.back)) = false := by
      rw [short] at marker
      exact Bool.eq_false_iff.mpr marker
    obtain ⟨all, noGap⟩ := of_startsMarker short long
    refine .inr ⟨long, ?_, fun b mem => all b (by simp [mem]), noGap, ?_⟩
    · cases l with
      | nil => exact noGap
      | cons b l => rcases all b (by simp) with rfl | rfl <;> rfl
    · exact (all a (by simp)).imp_right .inl

theorem fetchFrom_eq_fetchPlain {rest : List Char} (unmarked : startsMarker (a :: rest) = false)
    (noGap : startsGap rest = false)
    (kind : a = '-' ∨ a = '.' ∨ (a = '?' ∨ a = ':') ∧ s.inFlow = false) :
    s.fetchFrom a rest = s.fetchPlain ∧ Scanner.startsPlain s.inFlow a rest = true := by
  have noSpace : rest.head?.any isSpacing = false := by
    cases rest with
    | nil => rfl
    | cons b rest =>
      rw [startsGap, isGap, Bool.or_eq_false_iff] at noGap
      exact noGap.1
  have starts : Scanner.startsPlain s.inFlow a rest = true := by
    rcases kind with rfl | rfl | ⟨rfl | rfl, block⟩
    · simp [Scanner.startsPlain, noSpace]
    · simp [Scanner.startsPlain, Scanner.isIndicator, isGap, isSpacing, isBreak]
    · simp [Scanner.startsPlain, block, noGap]
    · simp [Scanner.startsPlain, block, noGap]
  refine ⟨?_, starts⟩
  rcases kind with rfl | rfl | ⟨rfl | rfl, block⟩
  · simp [Scanner.fetchFrom, unmarked, noGap, starts]
  · simp [Scanner.fetchFrom, unmarked, starts]
  · rw [block] at starts
    simp [Scanner.fetchFrom, unmarked, noGap, starts, block]
  · rw [block] at starts
    simp [Scanner.fetchFrom, unmarked, noGap, starts, block]

theorem startsPlain_append {flow : Bool} (noEntry : ¬(a == '-' && startsGap l) = true)
    (mark : ∀ b, b = '?' ∨ b = ':' →
      (a == b && (flow || startsGap (l ++ w.back))) = (a == b && (flow || startsGap l))) :
    Scanner.startsPlain flow a (l ++ w.back) = Scanner.startsPlain flow a l := by
  cases l with
  | cons b l => rfl
  | nil =>
    have noDash : (a == '-') = false := by simpa [startsGap] using noEntry
    have question := mark '?' (.inl rfl)
    have colon := mark ':' (.inr rfl)
    simp only [List.nil_append, startsGap] at question colon
    simp only [Scanner.startsPlain, noDash, List.nil_append, startsGap]
    grind

/-- A step of the scanner inside of margins where there is text left. -/
theorem fetchFrom_steps (here : s.cursor.rest = a :: l) (ends : EndsVisibly (a :: l))
    (going : s.ended = false) :
    w.Steps l (s.fetchFrom a l) ((w.scanner s).fetchFrom a (l ++ w.back)) := by
  rcases lookahead w s.inFlow a l with ⟨marker, entry, mark⟩ | ⟨unmarked, noGap, all, back, kind⟩
  · have column : (w.scanner s).column = s.column := rfl
    have flow : (w.scanner s).inFlow = s.inFlow := rfl
    rw [Scanner.fetchFrom, Scanner.fetchFrom, column, flow, marker, entry, mark '?' (.inl rfl),
      mark ':' (.inr rfl)]
    refine .ite (fun _ => fetchDirective_steps here ends going) fun _ => ?_
    refine .ite (fun marked => ?_) fun unmarked => ?_
    · exact fetchMarker_steps here ends going (by rw [Bool.and_eq_true] at marked; exact marked.2) _
    refine .ite (fun _ => fetchOpening_steps here ends going _) fun _ => ?_
    refine .ite (fun _ => fetchOpening_steps here ends going _) fun _ => ?_
    refine .ite (fun _ => fetchClosing_steps here ends going _) fun _ => ?_
    refine .ite (fun _ => fetchClosing_steps here ends going _) fun _ => ?_
    refine .ite (fun _ => fetchComma_steps here ends going) fun _ => ?_
    refine .ite (fun _ => fetchEntry_steps here ends going) fun noEntry => ?_
    refine .ite (fun _ => fetchKey_steps here ends going) fun _ => ?_
    refine .ite (fun _ => fetchValue_steps here ends going) fun _ => ?_
    refine .ite (fun _ => fetchName_steps here ends going _) fun _ => ?_
    refine .ite (fun _ => fetchName_steps here ends going _) fun _ => ?_
    refine .ite (fun _ => fetchTag_steps here ends going) fun _ => ?_
    refine .ite (fun _ => fetchBlock_steps here ends going _ (.inl rfl)) fun _ => ?_
    refine .ite (fun _ => fetchBlock_steps here ends going _ (.inr rfl)) fun _ => ?_
    refine .ite (fun _ => fetchQuoted_steps here ends going _) fun _ => ?_
    refine .ite (fun _ => fetchQuoted_steps here ends going _) fun _ => ?_
    rw [startsPlain_append noEntry mark]
    have unmarked' := Bool.eq_false_iff.mpr unmarked
    exact .ite (fun starts => fetchPlain_steps here ends going starts unmarked') fun _ => .nothing
  · have kind' : a = '-' ∨ a = '.' ∨ (a = '?' ∨ a = ':') ∧ (w.scanner s).inFlow = false := kind
    obtain ⟨plain, starts⟩ := fetchFrom_eq_fetchPlain unmarked noGap kind'
    rw [plain]
    exact fetchPlain_dashes going here starts unmarked all back

end Margin

end RoomAudio.Yaml
