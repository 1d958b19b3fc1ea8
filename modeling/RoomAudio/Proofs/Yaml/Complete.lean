import Mathlib.Data.List.InsertIdx
import RoomAudio.Proofs.Yaml.Margin.Run
import RoomAudio.Yaml.Format

/-!
# Whole documents

A document that is read as a whole has been read up to its end: its events end with the end of the
text, which the last token says, and that token is found only when there is no fault.

## Main definitions

* `Yaml.Grammar.Careful` — what a step of the grammar makes of the tokens.
* `Yaml.scan_of_decode` — a text that can be decoded consists of tokens.
-/

namespace RoomAudio.Yaml

/-! ## Events -/

namespace Grammar

variable {g h : Grammar} {e : Event} {x : Step}

@[simp] theorem tokens_pass : g.pass.tokens = g.tokens.tail := List.drop_one

@[simp] theorem tokens_expect (next : Expected) : (g.expect next).tokens = g.tokens := rfl

@[simp] theorem expected_expect (next : Expected) : (g.expect next).expected = next := rfl

@[simp] theorem tokens_thereafter (next : Expected) : (g.thereafter next).tokens = g.tokens := by
  rw [thereafter]

@[simp] theorem tokens_resume : g.resume.tokens = g.tokens := by
  rw [resume]
  split <;> rfl

/-- A step leaves some of the tokens, and finds the end of the text only where a token says so.
Nothing is expected thereafter. -/
def Careful (g : Grammar) (x : Step) : Prop :=
  ∀ e h, x = some (e, h) →
    h.tokens <:+ g.tokens ∧
      (e = .streamEnd → Token.streamEnd ∈ g.tokens ∧ h.expected = .nothing)

namespace Careful

@[simp] theorem none : g.Careful Option.none := by
  rintro e h ⟨⟩

@[simp] theorem some_iff : g.Careful (some (e, h)) ↔
    h.tokens <:+ g.tokens ∧
      (e = .streamEnd → Token.streamEnd ∈ g.tokens ∧ h.expected = .nothing) := by
  refine ⟨fun careful => careful e h rfl, ?_⟩
  rintro careful e h ⟨⟩
  exact careful

@[simp] theorem empty_iff (next : Expected) : g.Careful (h.empty next) ↔ h.tokens <:+ g.tokens := by
  simp [empty, emptyScalar]

theorem of_suffix (careful : h.Careful x) (within : h.tokens <:+ g.tokens) : g.Careful x := by
  intro e h' found
  obtain ⟨left, ends⟩ := careful e h' found
  exact ⟨left.trans within, fun same => ⟨within.subset (ends same).1, (ends same).2⟩⟩

theorem bind {α : Type} {y : Option α} {f : α → Step} (each : ∀ a, y = some a → g.Careful (f a)) :
    g.Careful (y >>= f) := by
  intro e h found
  obtain ⟨a, first, found⟩ := Option.bind_eq_some_iff.mp found
  exact each a first e h found

end Careful

theorem suffix_of_properties {p : Properties} (found : g.properties = some (p, h)) :
    h.tokens <:+ g.tokens := by
  unfold properties at found
  split at found
  · rename_i name handle suffix tokens here
    obtain ⟨tag, -, found⟩ := Option.bind_eq_some_iff.mp found
    cases found
    rw [here]
    exact List.suffix_append [_, _] tokens
  · rename_i handle suffix name tokens here
    obtain ⟨tag, -, found⟩ := Option.bind_eq_some_iff.mp found
    cases found
    rw [here]
    exact List.suffix_append [_, _] tokens
  · rename_i name tokens other here
    cases found
    exact here ▸ List.suffix_cons _ tokens
  · rename_i handle suffix tokens other here
    obtain ⟨tag, -, found⟩ := Option.bind_eq_some_iff.mp found
    cases found
    exact here ▸ List.suffix_cons _ tokens
  · cases found
    exact List.suffix_refl _

@[simp] theorem careful_node {block bare : Bool} (within : h.tokens <:+ g.tokens) :
    g.Careful (h.node block bare) := by
  refine Careful.of_suffix ?_ within
  unfold node
  split
  · simp [List.tail_suffix]
  · refine .bind fun ⟨p, h'⟩ found => ?_
    have inside := suffix_of_properties found
    have behind : h'.tokens.tail <:+ h.tokens := (List.tail_suffix _).trans inside
    dsimp only
    unfold value
    split
    · split
      · simp [inside]
      · split <;> simp [inside]
    · simp [behind]
    · simp [inside]
    · simp [inside]
    · split
      · simp [inside]
      · split <;> simp [inside]
    · split
      · simp [inside]
      · split <;> simp [inside]
    · simp
    · split <;> simp [inside]

/-! Every other step looks at the first tokens and passes some of them. -/

theorem careful_blockListEntry (within : h.tokens <:+ g.tokens) : g.Careful h.blockListEntry := by
  refine Careful.of_suffix ?_ within
  unfold blockListEntry
  split
  · dsimp only
    split <;> simp [List.tail_suffix]
  · simp [List.tail_suffix]
  · simp

theorem careful_bareListEntry : g.Careful g.bareListEntry := by
  unfold bareListEntry
  split
  · dsimp only
    split <;> simp [List.tail_suffix]
  · simp
  · simp

theorem careful_blockRecordNode {next : Expected} (within : h.tokens <:+ g.tokens) :
    g.Careful (h.blockRecordNode next) := by
  unfold blockRecordNode
  split <;> simp [within]

theorem careful_blockRecordKey (within : h.tokens <:+ g.tokens) : g.Careful h.blockRecordKey := by
  refine Careful.of_suffix ?_ within
  unfold blockRecordKey
  split
  · exact careful_blockRecordNode (by simp [List.tail_suffix])
  · simp [List.tail_suffix]
  · simp

theorem careful_blockRecordValue : g.Careful g.blockRecordValue := by
  unfold blockRecordValue
  split
  · exact careful_blockRecordNode (by simp [List.tail_suffix])
  · simp
  · simp

theorem careful_flowListNode (within : h.tokens <:+ g.tokens) : g.Careful h.flowListNode := by
  refine Careful.of_suffix ?_ within
  unfold flowListNode
  split <;> simp [List.tail_suffix]

theorem careful_flowListEntry : g.Careful g.flowListEntry := by
  unfold flowListEntry
  split
  · simp [List.tail_suffix]
  · exact careful_flowListNode (by simp [List.tail_suffix])
  · simp

theorem careful_flowPairKey : g.Careful g.flowPairKey := by
  unfold flowPairKey
  split <;> simp [List.tail_suffix]

theorem careful_flowPairValue : g.Careful g.flowPairValue := by
  unfold flowPairValue
  split
  · simp
  · dsimp only
    split <;> simp [List.tail_suffix]
  · simp

theorem careful_flowRecordNode (within : h.tokens <:+ g.tokens) : g.Careful h.flowRecordNode := by
  refine Careful.of_suffix ?_ within
  unfold flowRecordNode
  split
  · dsimp only
    split <;> simp [List.tail_suffix]
  · simp [List.tail_suffix]
  · simp

theorem careful_flowRecordKey : g.Careful g.flowRecordKey := by
  unfold flowRecordKey
  split
  · simp [List.tail_suffix]
  · exact careful_flowRecordNode (by simp [List.tail_suffix])
  · simp

theorem careful_flowRecordValue : g.Careful g.flowRecordValue := by
  unfold flowRecordValue
  split
  · simp
  · dsimp only
    split <;> simp [List.tail_suffix]
  · simp

theorem suffix_of_directivesFrom {version : Bool} {handles handles' : List (List Char × List Char)}
    {tokens tokens' : List Token}
    (found : directivesFrom version handles tokens = some (handles', tokens')) :
    tokens' <:+ tokens := by
  fun_induction directivesFrom version handles tokens with
  | case1 => cases found
  | case2 version handles major minor tokens known ih =>
    exact (ih found).trans (List.suffix_cons _ _)
  | case3 => cases found
  | case4 version handles handle start tokens new ih =>
    exact (ih found).trans (List.suffix_cons _ _)
  | case5 => cases found; exact List.suffix_refl _

theorem careful_explicitDocument : g.Careful g.explicitDocument := by
  unfold explicitDocument
  refine .bind fun ⟨handles, tokens⟩ found => ?_
  have within := suffix_of_directivesFrom found
  dsimp only
  split
  · rename_i rest
    simpa using (List.suffix_cons _ rest).trans within
  · simp

theorem careful_firstDocument : g.Careful g.firstDocument := by
  unfold firstDocument
  split
  · simp
  · rename_i here
    simp [here]
  · exact careful_explicitDocument
  · exact careful_explicitDocument
  · exact careful_explicitDocument
  · simp

theorem careful_nextDocument : g.Careful g.nextDocument := by
  have within : g.tokens.dropWhile (· == Token.documentEnd) <:+ g.tokens := List.dropWhile_suffix _
  unfold nextDocument
  dsimp only
  split
  · simp
  · rename_i tokens here
    rw [here] at within
    have last : Token.streamEnd ∈ g.tokens := within.subset (by simp)
    simpa [last, here] using (List.suffix_cons _ tokens).trans within
  · exact careful_explicitDocument.of_suffix within

theorem careful_documentContent : g.Careful g.documentContent := by
  unfold documentContent
  split <;> simp [emptyScalar]

theorem careful_documentEnd : g.Careful g.documentEnd := by
  unfold documentEnd
  split <;> simp [List.tail_suffix]

/-- The end of the text is found only where a token says so. -/
theorem careful_step (g : Grammar) : g.Careful g.step := by
  unfold step
  split
  · exact careful_firstDocument
  · exact careful_nextDocument
  · exact careful_documentContent
  · exact careful_documentEnd
  · simp
  · exact careful_blockListEntry (by simp [List.tail_suffix])
  · exact careful_blockListEntry (by simp)
  · exact careful_bareListEntry
  · exact careful_blockRecordKey (by simp [List.tail_suffix])
  · exact careful_blockRecordKey (by simp)
  · exact careful_blockRecordValue
  · exact careful_flowListNode (by simp [List.tail_suffix])
  · exact careful_flowListEntry
  · exact careful_flowPairKey
  · exact careful_flowPairValue
  · simp
  · exact careful_flowRecordNode (by simp [List.tail_suffix])
  · exact careful_flowRecordKey
  · exact careful_flowRecordValue
  · split <;> simp
  · simp

/-- The grammar finds the end of the text only where a token says so. -/
theorem streamEnd_mem_of_run {n : Nat} (ends : Event.streamEnd ∈ g.run n) :
    Token.streamEnd ∈ g.tokens := by
  induction n generalizing g with
  | zero => cases ends
  | succ n ih =>
    rw [run] at ends
    cases next : g.step with
    | none =>
      rw [next] at ends
      cases ends
    | some p =>
      obtain ⟨e, h⟩ := p
      obtain ⟨within, last⟩ := careful_step g e h next
      rw [next] at ends
      rcases List.mem_cons.mp ends with same | later
      · exact (last same.symm).1
      · exact within.subset (ih later)

/-- Nothing is said after the end of the text. -/
theorem run_of_streamEnd (next : g.step = some (.streamEnd, h)) (n : Nat) : h.run n = [] := by
  have nothing := ((careful_step g .streamEnd h next).2 rfl).2
  cases n with
  | zero => rfl
  | succ n => rw [run, step, nothing]

/-- Once the end of the text is found, a larger limit makes no difference. -/
theorem run_add {n : Nat} (ends : Event.streamEnd ∈ g.run n) (m : Nat) :
    g.run (n + m) = g.run n := by
  induction n generalizing g with
  | zero => cases ends
  | succ n ih =>
    rw [Nat.succ_add, run]
    rw [run] at ends ⊢
    cases next : g.step with
    | none => rfl
    | some p =>
      obtain ⟨e, h⟩ := p
      rw [next] at ends
      rcases List.mem_cons.mp ends with same | later
      · subst same
        dsimp only
        rw [run_of_streamEnd next, run_of_streamEnd next]
      · exact congrArg (e :: ·) (ih later)

end Grammar

/-! ## The tree -/

/-- A document is whole only if its events end. -/
theorem streamEnd_mem_of_build {b : Builder} {events : List Event}
    (whole : (Source.build b events).whole = true) : Event.streamEnd ∈ events := by
  fun_induction Source.build b events with
  | case1 => cases whole
  | case2 => simp
  | case3 b rest =>
    have rest : rest = [.streamEnd] := by simpa [Source.ofBuilder] using whole
    simp [rest]
  | case4 => cases whole
  | case5 b e rest _ _ b' taken ih => exact List.mem_cons_of_mem _ (ih whole)

/-- What is decoded is a whole document. -/
theorem whole_of_decode {α : Type} {read : Format Node Reading → Node → Reading α}
    {text : List Char} {a : α} (found : decode read text = .ok a) :
    (Source.ofText text).whole = true := by
  unfold decode at found
  dsimp only at found
  cases first : (read (format (Source.ofText text)) (Source.ofText text).root).run 0 with
  | error fault =>
    rw [first] at found
    cases found
  | ok p =>
    rw [first] at found
    by_contra broken
    have fault : (throw .malformed : Except Fault α) = .ok a := (if_neg broken).symm.trans found
    cases fault

/-! ## Tokens -/

namespace Scanner

variable {s t : Scanner} {x : Option Scanner} {token : Token} {column : Int}

def Open (s : Scanner) : Prop := Token.streamEnd ∉ s.found

def StaysOpen (x : Option Scanner) : Prop := ∀ t, x = some t → t.Open

namespace StaysOpen

theorem none : StaysOpen none := by
  rintro t ⟨⟩

theorem some (h : s.Open) : StaysOpen (some s) := by
  rintro t ⟨⟩
  exact h

theorem bind {α : Type} {y : Option α} {f : α → Option Scanner}
    (each : ∀ a, y = Option.some a → StaysOpen (f a)) : StaysOpen (y >>= f) := by
  intro t found
  obtain ⟨a, first, found⟩ := Option.bind_eq_some_iff.mp found
  exact each a first t found

theorem ite {p : Prop} [Decidable p] {y : Option Scanner} (yes : p → StaysOpen x)
    (no : ¬p → StaysOpen y) : StaysOpen (if p then x else y) := by
  split
  · exact yes ‹_›
  · exact no ‹_›

end StaysOpen

namespace Open

theorem push (h : s.Open) (token : Token) (other : token ≠ .streamEnd) : (s.push token).Open := by
  intro mem
  rcases List.mem_cons.mp mem with same | mem
  · exact other same.symm
  · exact h mem

theorem insertAt (h : s.Open) (position : Nat) (token : Token) (other : token ≠ .streamEnd) :
    (s.insertAt position token).Open := by
  intro mem
  rcases List.eq_or_mem_of_mem_insertIdx mem with same | mem
  · exact other same.symm
  · exact h mem

theorem roll (h : s.Open) (column position : Nat) (token : Token) (other : token ≠ .streamEnd) :
    (s.roll column position token).Open := by
  rw [Scanner.roll]
  split
  · exact h.insertAt position token other
  · exact h

theorem closeBlocks (h : s.Open) (l : List Int) : (s.closeBlocks column l).Open := by
  induction l generalizing s with
  | nil =>
    rw [Scanner.closeBlocks]
    split
    · exact h.push .blockEnd (by simp)
    · exact h
  | cons i l ih =>
    rw [Scanner.closeBlocks]
    split
    · exact ih (h.push .blockEnd (by simp))
    · exact h

theorem unroll (h : s.Open) : (s.unroll column).Open := by
  rw [Scanner.unroll]
  split
  · exact h
  · exact h.closeBlocks s.outer

theorem of_dropCandidate (h : s.Open) (found : s.dropCandidate = some t) : t.Open := by
  rw [dropCandidate_eq] at found
  split at found
  · cases found
  · cases found
    exact h

theorem of_saveCandidate (h : s.Open) (found : s.saveCandidate = some t) : t.Open := by
  obtain ⟨k, rfl⟩ := exists_of_saveCandidate found
  exact h

end Open

/-! Each step but the last one finds other tokens. -/

theorem ne_streamEnd_of_readDirective {c d : Cursor} (found : readDirective c = some (token, d)) :
    token ≠ .streamEnd := by
  rw [readDirective_eq_some_iff] at found
  obtain ⟨-, -, b, named, -⟩ := found
  rw [readNamed] at named
  split at named
  · rw [readVersion_eq] at named
    obtain ⟨⟨major, c⟩, -, named⟩ := Option.bind_eq_some_iff.mp named
    dsimp only at named
    split at named
    · obtain ⟨⟨minor, c⟩, -, named⟩ := Option.bind_eq_some_iff.mp named
      cases named
      simp
    · cases named
  · split at named
    · rw [readTagDirective_eq] at named
      obtain ⟨⟨handle, c⟩, -, named⟩ := Option.bind_eq_some_iff.mp named
      dsimp only at named
      split at named
      · obtain ⟨⟨start, c⟩, -, named⟩ := Option.bind_eq_some_iff.mp named
        dsimp only at named
        split at named
        · cases named
          simp
        · cases named
      · cases named
    · cases named

section Fetch

variable (h : s.Open)

include h

theorem staysOpen_fetchDirective : StaysOpen s.fetchDirective :=
  .bind fun _ dropped => .bind fun _ found =>
    .some ((h.unroll.of_dropCandidate dropped).push _ (ne_streamEnd_of_readDirective found))

theorem staysOpen_fetchMarker (other : token ≠ .streamEnd) : StaysOpen (s.fetchMarker token) :=
  .bind fun _ dropped => .some ((h.unroll.of_dropCandidate dropped).push token other)

theorem staysOpen_fetchOpening (other : token ≠ .streamEnd) : StaysOpen (s.fetchOpening token) :=
  .bind fun _ saved => .some ((h.of_saveCandidate saved).push token other)

theorem staysOpen_fetchClosing (other : token ≠ .streamEnd) :
    StaysOpen (s.fetchClosing token) := by
  refine .bind fun t dropped => ?_
  have pushed := (h.of_dropCandidate dropped).push token other
  dsimp only
  split
  · exact .some pushed
  · exact .some pushed

theorem staysOpen_fetchComma : StaysOpen s.fetchComma :=
  .bind fun _ dropped => .some ((h.of_dropCandidate dropped).push .flowEntry (by simp))

theorem staysOpen_fetchEntry : StaysOpen s.fetchEntry := by
  refine .ite (x := Option.none >>= _) (fun _ => .none) fun _ => .bind fun t dropped => ?_
  have rolled := h.roll s.column s.count .blockListStart (by simp)
  exact .some ((rolled.of_dropCandidate dropped).push .blockEntry (by simp))

theorem staysOpen_fetchKey : StaysOpen s.fetchKey := by
  refine .ite (x := Option.none >>= _) (fun _ => .none) fun _ => .bind fun t dropped => ?_
  have rolled := h.roll s.column s.count .blockRecordStart (by simp)
  exact .some ((rolled.of_dropCandidate dropped).push .key (by simp))

theorem staysOpen_fetchValue : StaysOpen s.fetchValue := by
  cases candidate : s.candidate with
  | none =>
    rw [fetchValue_of_none candidate]
    have rolled := h.roll s.column s.count .blockRecordStart (by simp)
    exact .ite (fun _ => .none) fun _ => .some (rolled.push .value (by simp))
  | some k =>
    rw [fetchValue_of_some candidate]
    have inserted := h.insertAt k.position .key (by simp)
    have rolled := inserted.roll k.mark.column k.position .blockRecordStart (by simp)
    exact .some (rolled.push .value (by simp))

theorem staysOpen_fetchName {token : List Char → Token} (other : ∀ name, token name ≠ .streamEnd) :
    StaysOpen (s.fetchName token) :=
  .bind fun _ saved => .bind fun p _ => .some ((h.of_saveCandidate saved).push _ (other p.1))

theorem staysOpen_fetchTag : StaysOpen s.fetchTag :=
  .bind fun _ saved => .bind fun p _ =>
    .some ((h.of_saveCandidate saved).push (.tag p.1.1 p.1.2) (by simp))

theorem staysOpen_fetchBlock (style : Style) : StaysOpen (s.fetchBlock style) :=
  .bind fun _ dropped => .bind fun p _ =>
    .some ((h.of_dropCandidate dropped).push (.scalar style p.1) (by simp))

theorem staysOpen_fetchQuoted (style : Style) : StaysOpen (s.fetchQuoted style) := by
  refine .bind fun t saved => ?_
  have scalar (p : List Char × Cursor) := (h.of_saveCandidate saved).push
    (.scalar style p.1) (by simp)
  exact .ite (fun _ => .bind fun p _ => .some (scalar p)) fun _ => .bind fun p _ => .some (scalar p)

theorem staysOpen_fetchPlain : StaysOpen s.fetchPlain :=
  .bind fun _ saved => .bind fun p _ =>
    .some ((h.of_saveCandidate saved).push (.scalar .plain p.text) (by simp))

theorem staysOpen_fetchFrom (c : Char) (rest : List Char) : StaysOpen (s.fetchFrom c rest) := by
  refine .ite (fun _ => staysOpen_fetchDirective h) fun _ => ?_
  refine .ite (fun _ => staysOpen_fetchMarker h (by split <;> simp)) fun _ => ?_
  refine .ite (fun _ => staysOpen_fetchOpening h (by simp)) fun _ => ?_
  refine .ite (fun _ => staysOpen_fetchOpening h (by simp)) fun _ => ?_
  refine .ite (fun _ => staysOpen_fetchClosing h (by simp)) fun _ => ?_
  refine .ite (fun _ => staysOpen_fetchClosing h (by simp)) fun _ => ?_
  refine .ite (fun _ => staysOpen_fetchComma h) fun _ => ?_
  refine .ite (fun _ => staysOpen_fetchEntry h) fun _ => ?_
  refine .ite (fun _ => staysOpen_fetchKey h) fun _ => ?_
  refine .ite (fun _ => staysOpen_fetchValue h) fun _ => ?_
  refine .ite (fun _ => staysOpen_fetchName h (by simp)) fun _ => ?_
  refine .ite (fun _ => staysOpen_fetchName h (by simp)) fun _ => ?_
  refine .ite (fun _ => staysOpen_fetchTag h) fun _ => ?_
  refine .ite (fun _ => staysOpen_fetchBlock h _) fun _ => ?_
  refine .ite (fun _ => staysOpen_fetchBlock h _) fun _ => ?_
  refine .ite (fun _ => staysOpen_fetchQuoted h _) fun _ => ?_
  refine .ite (fun _ => staysOpen_fetchQuoted h _) fun _ => ?_
  exact .ite (fun _ => staysOpen_fetchPlain h) fun _ => .none

end Fetch

/-- As long as the end of the text has not been found, there is no token for it. -/
theorem Open.fetch (h : s.Open) (found : s.fetch = some t) : t.ended = true ∨ t.Open := by
  rw [fetch_eq] at found
  obtain ⟨-, -, found⟩ := Option.bind_eq_some_iff.mp found
  obtain ⟨u, dropped, -⟩ := Option.bind_eq_some_iff.mp found
  obtain ⟨k, ks, same⟩ := exists_of_dropStale dropped
  have open_ : u.Open := by rw [same]; exact h
  cases rest : s.skipGap.cursor.rest with
  | nil =>
    rw [fetchNext_of_nil dropped rest, fetchEnd_eq] at found
    split at found
    · cases found
    · cases found
      exact .inl rfl
  | cons a l =>
    rw [fetchNext_of_cons dropped rest] at found
    exact .inr (staysOpen_fetchFrom open_.unroll a l t found)

/-- While the text is not over, no settled token says that it is. -/
theorem Open.not_mem_settled (h : s.Open) : Token.streamEnd ∉ s.settled := fun mem =>
  h (List.mem_reverse.mp (List.mem_of_mem_take mem))

/-- The end of the text is among the tokens only if there is no fault. -/
theorem Open.run {n : Nat} (h : s.Open) (ends : Token.streamEnd ∈ (s.run n).1) :
    (s.run n).2 = true := by
  induction n generalizing s with
  | zero => exact absurd ends h.not_mem_settled
  | succ n ih =>
    rw [Scanner.run] at ends ⊢
    cases step : s.fetch with
    | none =>
      rw [step] at ends
      exact absurd ends h.not_mem_settled
    | some t =>
      rw [step] at ends
      dsimp only at ends ⊢
      split
      · rfl
      · rename_i going
        rw [if_neg going] at ends
        exact ih ((h.fetch step).resolve_left going) ends

theorem open_start (text : List Char) : (start text).Open := by
  cases text <;> simp [Open, start]

end Scanner

/-- A text that can be decoded consists of tokens. -/
theorem scan_of_decode {α : Type} {read : Format Node Reading → Node → Reading α}
    {text : List Char} {a : α} (found : decode read text = .ok a) : (scan text).2 = true := by
  have events := streamEnd_mem_of_build (whole_of_decode found)
  have tokens : Token.streamEnd ∈ (scan text).1 := Grammar.streamEnd_mem_of_run events
  rw [scan] at tokens ⊢
  split
  · rename_i permitted
    rw [if_pos permitted] at tokens
    exact (Scanner.open_start text).run tokens
  · rename_i spoiled
    rw [if_neg spoiled] at tokens
    cases tokens

end RoomAudio.Yaml
