import RoomAudio.Proofs.Yaml.Margin.Run

/-!
# Progress of the scanner

Every step of the scanner passes a character, up to the end of the text. So a text with `n`
characters is scanned in `n + 1` steps, or there is a fault in it.

## Main definitions

* `Yaml.Scanner.Passes` — a step that passes a character.
* `Yaml.Scanner.shorter_of_fetch` — every step passes a character, or finds the end.
* `Yaml.Scanner.run_of_run` — a larger limit makes no difference.
-/

namespace RoomAudio.Yaml

variable {c d : Cursor} {l : List Char} {m : Mark}

/-! ## Readers -/

namespace Margin

def empty : Margin := ⟨0, 0, [], by simp⟩

@[simp] theorem cursor_empty (c : Cursor) : empty.cursor c = c := by
  simp [cursor, empty, mark]

/-- Where a reader comes to behind what it finds. -/
theorem Follows.suffix {α : Type} {o : Option (α × Cursor)} {a : α} (h : empty.Follows l o o)
    (found : o = some (a, c)) : c.rest <:+ l := by
  obtain ⟨d, same, place, within⟩ := h a c found
  rwa [place, cursor_empty]

end Margin

open Margin

theorem suffix_of_readName {name : List Char} (found : readName c = some (name, d)) :
    d.rest <:+ c.rest :=
  (cursor_empty c ▸ readName_follows (w := empty) c).suffix found

theorem suffix_of_readTag {flow : Bool} {tag : List Char × List Char}
    (found : readTag flow c = some (tag, d)) : d.rest <:+ c.rest.tail :=
  (cursor_empty c ▸ readTag_follows (w := empty) flow c).suffix found

theorem suffix_of_readVersionNumber {n : Nat} (found : readVersionNumber c = some (n, d)) :
    d.rest <:+ c.rest :=
  (cursor_empty c ▸ readVersionNumber_follows (w := empty) c).suffix found

theorem suffix_of_readVersion {token : Token} (found : readVersion c = some (token, d)) :
    d.rest <:+ c.rest := by
  rw [readVersion_eq] at found
  obtain ⟨⟨major, c₁⟩, first, found⟩ := Option.bind_eq_some_iff.mp found
  dsimp only at found
  split at found
  · obtain ⟨⟨minor, c₂⟩, second, found⟩ := Option.bind_eq_some_iff.mp found
    cases found
    exact ((suffix_of_readVersionNumber second).trans (List.drop_suffix _ _)).trans
      ((suffix_of_readVersionNumber first).trans (reaches_skipSpacing c.rest c.mark).suffix)
  · cases found

theorem suffix_of_readTagDirective {token : Token} (found : readTagDirective c = some (token, d)) :
    d.rest <:+ c.rest := by
  rw [readTagDirective_eq] at found
  obtain ⟨⟨handle, c₁⟩, first, found⟩ := Option.bind_eq_some_iff.mp found
  dsimp only at found
  split at found
  · obtain ⟨⟨start, c₂⟩, second, found⟩ := Option.bind_eq_some_iff.mp found
    dsimp only at found
    split at found
    · cases found
      have handle := (cursor_empty _ ▸ readHandle_follows (w := empty) true
        (skipSpacing c.rest c.mark)).suffix first
      have uri := (cursor_empty _ ▸ readUri_follows (w := empty) true
        (skipSpacing c₁.rest c₁.mark)).suffix second
      exact (uri.trans (reaches_skipSpacing c₁.rest c₁.mark).suffix).trans
        ((handle.trans (List.tail_suffix _)).trans (reaches_skipSpacing c.rest c.mark).suffix)
    · cases found
  · cases found

theorem suffix_of_readDirective {token : Token} (found : readDirective c = some (token, d)) :
    d.rest <:+ c.rest := by
  obtain ⟨-, -, b, named, line⟩ := (readDirective_eq_some_iff c d token).mp found
  have inside : b.rest <:+ (readWord c).2.rest := by
    rw [readNamed] at named
    split at named
    · exact suffix_of_readVersion named
    · split at named
      · exact suffix_of_readTagDirective named
      · cases named
  exact ((reaches_skipLineEnd line).suffix.trans inside).trans (readWord_suffix c)

theorem suffix_of_singleQuotedFrom {text text' : List Char} {gap : Folding}
    (found : singleQuotedFrom text gap l m = some (text', d)) : d.rest <:+ l := by
  fun_induction singleQuotedFrom text gap l m <;> grind [List.suffix_cons, List.IsSuffix.trans]

theorem suffix_of_doubleQuotedFrom {text text' : List Char} {gap : Folding} {state : EscapeState}
    (found : doubleQuotedFrom text gap state l m = some (text', d)) : d.rest <:+ l := by
  fun_induction doubleQuotedFrom text gap state l m <;>
    grind [List.suffix_cons, List.IsSuffix.trans]

theorem suffix_of_leadingBreaks {indent deepest deepest' : Nat} {breaks breaks' : List Char}
    (found : leadingBreaks indent deepest breaks l m = some (breaks', deepest', d)) :
    d.rest <:+ l := by
  fun_induction leadingBreaks indent deepest breaks l m <;>
    grind [List.suffix_cons, List.IsSuffix.trans]

theorem suffix_of_readBlock {style : Style} {indent : Int} {text : List Char}
    (found : readBlock style indent c = some (text, d)) : d.rest <:+ c.rest := by
  rw [readBlock_eq] at found
  obtain ⟨⟨header, c₁⟩, first, found⟩ := Option.bind_eq_some_iff.mp found
  obtain ⟨c₂, line, found⟩ := Option.bind_eq_some_iff.mp found
  obtain ⟨⟨b, c₃⟩, lines, found⟩ := Option.bind_eq_some_iff.mp found
  cases found
  obtain ⟨⟨breaks, deepest, c₄⟩, leading, lines⟩ := Option.bind_eq_some_iff.mp lines
  have header := (cursor_empty c ▸ readBlockHeader_follows (w := empty) c).suffix first
  have body := (reaches_blockLines lines).suffix.trans (suffix_of_leadingBreaks leading)
  exact body.trans ((reaches_skipLineEnd line).suffix.trans header)

/-! ## Steps -/

namespace Scanner

variable {s t : Scanner} {a : Char} {x : Option Scanner}

/-- A step after which nothing but `l` is left at most. -/
def Passes (l : List Char) (x : Option Scanner) : Prop := ∀ t, x = some t → t.cursor.rest <:+ l

namespace Passes

theorem nothing : Passes l none := by
  rintro t ⟨⟩

theorem found (within : t.cursor.rest <:+ l) : Passes l (some t) := by
  rintro t ⟨⟩
  exact within

theorem ite {p : Prop} [Decidable p] {y : Option Scanner} (yes : p → Passes l x)
    (no : ¬p → Passes l y) : Passes l (if p then x else y) := by
  split
  · exact yes ‹_›
  · exact no ‹_›

theorem dropCandidate {f : Scanner → Option Scanner}
    (next : Passes l (f { s with candidate := none })) : Passes l (s.dropCandidate >>= f) := by
  rw [dropCandidate_eq]
  split
  · exact nothing
  · exact next

theorem saveCandidate {f : Scanner → Option Scanner}
    (next : ∀ k, Passes l (f { s with candidate := k })) : Passes l (s.saveCandidate >>= f) := by
  intro t found
  obtain ⟨s', saved, found⟩ := Option.bind_eq_some_iff.mp found
  obtain ⟨k, rfl⟩ := exists_of_saveCandidate saved
  exact next k t found

/-- A token that a reader finds. -/
theorem read {α : Type} {o : Option (α × Cursor)} {f : α × Cursor → Option Scanner}
    (suffix : ∀ v d, o = some (v, d) → d.rest <:+ l)
    (next : ∀ v d t, f (v, d) = some t → t.cursor = d) :
    Passes l (o >>= f) := by
  intro t found
  obtain ⟨⟨v, d⟩, reads, found⟩ := Option.bind_eq_some_iff.mp found
  rw [next v d t found]
  exact suffix v d reads

end Passes

section Fetch

variable (here : s.cursor.rest = a :: l)
include here

theorem suffix_skip_one {u : Scanner} (same : u.cursor = s.cursor) :
    (u.cursor.skip 1).rest <:+ l := by
  have rest : (u.cursor.skip 1).rest = l := by rw [same, rest_skip_one here]
  exact rest ▸ List.suffix_refl l

theorem passes_fetchMarker (token : Token) : Passes l (s.fetchMarker token) := by
  refine .dropCandidate (.found ?_)
  change ((s.unroll (-1)).cursor.skip 3).rest <:+ l
  rw [cursor_unroll, ← rest_skip_one here]
  exact List.drop_suffix_drop_left _ (by decide)

theorem passes_fetchDirective : Passes l s.fetchDirective :=
  .dropCandidate (.read (fun _ _ found => (suffix_of_readDirective found).trans
    (suffix_skip_one here cursor_unroll)) fun _ _ _ found => by cases found; rfl)

theorem passes_fetchOpening (token : Token) : Passes l (s.fetchOpening token) :=
  .saveCandidate fun _ => .found (suffix_skip_one here rfl)

theorem passes_fetchClosing (token : Token) : Passes l (s.fetchClosing token) := by
  refine .dropCandidate ?_
  dsimp only
  split
  all_goals exact .found (suffix_skip_one here rfl)

theorem passes_fetchEntry : Passes l s.fetchEntry :=
  .ite (fun _ => .nothing) fun _ => .dropCandidate (.found (suffix_skip_one here (cursor_roll _ _)))

theorem passes_fetchKey : Passes l s.fetchKey :=
  .ite (fun _ => .nothing) fun _ => .dropCandidate (.found (suffix_skip_one here (cursor_roll _ _)))

theorem passes_fetchValue : Passes l s.fetchValue := by
  cases candidate : s.candidate with
  | none =>
    rw [fetchValue_of_none candidate]
    exact .ite (fun _ => .nothing) fun _ => .found (suffix_skip_one here (cursor_roll _ _))
  | some k =>
    rw [fetchValue_of_some candidate]
    exact .found (suffix_skip_one here (cursor_roll _ _))

theorem passes_fetchName (token : List Char → Token) : Passes l (s.fetchName token) :=
  .saveCandidate fun _ => .read (fun _ _ found =>
    (suffix_of_readName found).trans (suffix_skip_one here rfl)) fun _ _ _ found => by
      cases found
      rfl

theorem passes_fetchTag : Passes l s.fetchTag := by
  refine .saveCandidate fun k => .read (fun tag d found => ?_) fun _ _ _ found => by
    cases found
    rfl
  have suffix := suffix_of_readTag found
  rwa [show ({ s with candidate := k } : Scanner).cursor.rest = a :: l from here] at suffix

theorem passes_fetchBlock (style : Style) : Passes l (s.fetchBlock style) :=
  .dropCandidate (.read (fun _ _ found =>
    (suffix_of_readBlock found).trans (suffix_skip_one here rfl)) fun _ _ _ found => by
      cases found
      rfl)

theorem passes_fetchQuoted (style : Style) : Passes l (s.fetchQuoted style) := by
  have one : (s.cursor.skip 1).rest <:+ l := suffix_skip_one here rfl
  refine .saveCandidate fun k => .ite (fun _ => ?_) fun _ => ?_
  · exact .read (fun _ _ found => (suffix_of_singleQuotedFrom found).trans one)
      fun _ _ _ found => by
        cases found
        rfl
  · exact .read (fun _ _ found => (suffix_of_doubleQuotedFrom found).trans one)
      fun _ _ _ found => by
        cases found
        rfl

theorem passes_fetchPlain (starts : startsPlain s.inFlow a l = true)
    (unmarked : (s.column == 0 && startsMarker (a :: l)) = false) : Passes l s.fetchPlain := by
  refine .saveCandidate fun k t found => ?_
  obtain ⟨p, reads, found⟩ := Option.bind_eq_some_iff.mp found
  cases found
  change readPlain s.inFlow (s.indent + 1) s.cursor = _ at reads
  have place : s.cursor = ⟨a :: l, s.cursor.mark⟩ := by rw [← here]
  rw [place] at reads
  exact suffix_of_readPlain starts unmarked reads

/-- Every token begins with a character. -/
theorem passes_fetchFrom : Passes l (s.fetchFrom a l) := by
  refine .ite (fun _ => passes_fetchDirective here) fun _ => ?_
  refine .ite (fun _ => passes_fetchMarker here _) fun unmarked => ?_
  refine .ite (fun _ => passes_fetchOpening here _) fun _ => ?_
  refine .ite (fun _ => passes_fetchOpening here _) fun _ => ?_
  refine .ite (fun _ => passes_fetchClosing here _) fun _ => ?_
  refine .ite (fun _ => passes_fetchClosing here _) fun _ => ?_
  refine .ite (fun _ => .dropCandidate (.found (suffix_skip_one here rfl))) fun _ => ?_
  refine .ite (fun _ => passes_fetchEntry here) fun _ => ?_
  refine .ite (fun _ => passes_fetchKey here) fun _ => ?_
  refine .ite (fun _ => passes_fetchValue here) fun _ => ?_
  refine .ite (fun _ => passes_fetchName here _) fun _ => ?_
  refine .ite (fun _ => passes_fetchName here _) fun _ => ?_
  refine .ite (fun _ => passes_fetchTag here) fun _ => ?_
  refine .ite (fun _ => passes_fetchBlock here _) fun _ => ?_
  refine .ite (fun _ => passes_fetchBlock here _) fun _ => ?_
  refine .ite (fun _ => passes_fetchQuoted here _) fun _ => ?_
  refine .ite (fun _ => passes_fetchQuoted here _) fun _ => ?_
  exact .ite (fun starts => passes_fetchPlain here starts (Bool.eq_false_iff.mpr unmarked))
    fun _ => .nothing

end Fetch

/-- Every step passes a character, or finds the end. -/
theorem shorter_of_fetch (found : s.fetch = some t) :
    t.ended = true ∨ t.cursor.rest.length < s.cursor.rest.length := by
  rw [fetch_eq] at found
  obtain ⟨-, -, found⟩ := Option.bind_eq_some_iff.mp found
  obtain ⟨u, dropped, -⟩ := Option.bind_eq_some_iff.mp found
  obtain ⟨k, ks, rfl⟩ := exists_of_dropStale dropped
  cases rest : s.skipGap.cursor.rest with
  | nil =>
    rw [fetchNext_of_nil dropped rest, fetchEnd_eq] at found
    split at found
    · cases found
    · cases found
      exact .inl rfl
  | cons a l =>
    rw [fetchNext_of_cons dropped rest] at found
    have within := passes_fetchFrom (by rw [cursor_unroll]; exact rest) t found
    have gap := s.suffix_skipGap.length_le
    rw [rest, List.length_cons] at gap
    exact .inr (within.length_le.trans_lt (Nat.lt_of_succ_le gap))

/-- A scan that comes to the end within some limit does so within a limit that exceeds the length of
the text, and finds the same tokens. -/
theorem run_of_run {n k : Nat} (whole : (s.run n).2 = true) (enough : s.cursor.rest.length < k) :
    s.run k = s.run n := by
  induction n generalizing s k with
  | zero => cases whole
  | succ n ih =>
    obtain ⟨k, rfl⟩ : ∃ i, k = i + 1 := ⟨k - 1, by omega⟩
    rw [run] at whole ⊢
    rw [run]
    cases step : s.fetch with
    | none => rfl
    | some t =>
      rw [step] at whole
      dsimp only at whole ⊢
      split
      · rfl
      · rename_i going
        rw [if_neg going] at whole
        have shorter := (shorter_of_fetch step).resolve_left going
        exact ih whole (by omega)

end Scanner

end RoomAudio.Yaml
