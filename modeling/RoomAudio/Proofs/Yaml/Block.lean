import RoomAudio.Proofs.Yaml.Regular
import RoomAudio.Proofs.Yaml.Scalar

/-!
# Finding what blocks consist of

The tokens of keys, of list entries and of brackets. A name turns out to be a key at the colon
behind it. If it lies deeper than the block around it, it opens a block of its own.

## Main definitions

* `Yaml.Scanner.leads_key` — a name is found as a key.
* `Yaml.Scanner.leads_entry` — the hyphen of an entry is found.
* `Yaml.Scanner.leads_brackets` — an empty list or record is found.
-/

namespace RoomAudio.Yaml

open Scanner

namespace Scanner

variable {allowed : Bool} {indent : Int} {outer : List Int} {found : List Token} {m : Mark}

/-! ## Keys -/

/-- A name at the beginning of a line is no document marker. -/
theorem not_startsMarker_of_isName {name : String} (h : IsName name) (rest : List Char) :
    startsMarker (name.toList ++ ':' :: rest) = false := by
  have plain := h.allowsPlain.1
  simp only [Yaml.allowsPlain, hasIndicator, Bool.and_eq_true, Bool.not_eq_true',
    Bool.or_eq_false_iff] at plain
  have noMarker := plain.2.1.1.1
  generalize name.toList = l at noMarker ⊢
  have other (d : Char) (colon : d ≠ ':') (tail : List Char)
      (same : l ++ ':' :: rest = d :: d :: d :: tail) : ∃ tail', l = d :: d :: d :: tail' := by
    rcases l with _ | ⟨a, _ | ⟨b, _ | ⟨c, l⟩⟩⟩
    · cases same
      exact absurd rfl colon
    · cases same
      exact absurd rfl colon
    · cases same
      exact absurd rfl colon
    · cases same
      exact ⟨l, rfl⟩
  rw [startsMarker.eq_def]
  split
  · rename_i same
    obtain ⟨tail', rfl⟩ := other '-' (by decide) _ same
    cases noMarker
  · rename_i same
    obtain ⟨tail', rfl⟩ := other '.' (by decide) _ same
    cases noMarker
  · rfl

/-- A token is put in front of those that were found last. -/
theorem insertAt_place {c : Cursor} {k : Option Candidate} (last : List Token) (t : Token) :
    (place c allowed k indent outer (last ++ found)).insertAt found.length t =
      place c allowed k indent outer (last ++ t :: found) := by
  have position : (last ++ found).length - found.length = last.length := by simp
  have inserted : (last ++ found).insertIdx last.length t = last ++ t :: found := by
    induction last with
    | nil => simp
    | cons u last ih => simpa using ih
  simp only [insertAt, place, position, inserted]
  simp [Nat.add_assoc]

/-- A deeper column opens a block. -/
theorem roll_place {c : Cursor} {k : Option Candidate} {column : Nat} (last : List Token)
    (t : Token) (deep : indent < column) :
    (place c allowed k indent outer (last ++ found)).roll column found.length t =
      place c allowed k column (indent :: outer) (last ++ t :: found) := by
  have opens : (!(place c allowed k indent outer (last ++ found)).inFlow &&
      decide ((place c allowed k indent outer (last ++ found)).indent < column)) = true :=
    decide_eq_true deep
  rw [roll, if_pos opens, insertAt_place]
  rfl

/-- A column that is no deeper opens none. -/
theorem roll_place_self {c : Cursor} {k : Option Candidate} {column position : Nat} (t : Token)
    (shallow : ¬indent < column) :
    (place c allowed k indent outer found).roll column position t =
      place c allowed k indent outer found := by
  have opens : (!(place c allowed k indent outer found).inFlow &&
      decide ((place c allowed k indent outer found).indent < column)) = false :=
    decide_eq_false shallow
  rw [roll, opens, if_neg Bool.false_ne_true]

/-- The colon makes a key of the candidate, which may open a block. -/
theorem fetchValue_place {rest : List Char} {t : Token} {a : Candidate}
    (position : a.position = found.length) :
    (place ⟨':' :: rest, m⟩ false (some a) indent outer (t :: found)).fetchValue =
      some (if indent < a.mark.column then
          place ⟨rest, m.advance 1⟩ false none a.mark.column (indent :: outer)
            (.value :: t :: .key :: .blockRecordStart :: found)
        else place ⟨rest, m.advance 1⟩ false none indent outer (.value :: t :: .key :: found)) := by
  have key := @insertAt_place false indent outer found ⟨':' :: rest, m⟩ (some a) [t] .key
  rw [List.singleton_append, List.singleton_append] at key
  rw [fetchValue]
  change some { ((((place ⟨':' :: rest, m⟩ false (some a) indent outer (t :: found)).insertAt
    a.position .key).roll a.mark.column a.position .blockRecordStart).skip 1).push .value with
      candidate := none, keyAllowed := false } = _
  rw [position, key]
  by_cases deep : indent < a.mark.column
  · have rolled := @roll_place false indent outer found ⟨':' :: rest, m⟩ (some a) a.mark.column
      [t, .key] .blockRecordStart deep
    simp only [List.cons_append, List.nil_append] at rolled
    rw [if_pos deep, rolled]
    rfl
  · rw [if_neg deep, roll_place_self _ deep]
    rfl

/-- The colon makes a key of the candidate and opens a record in its column. -/
theorem fetch_colon {rest : List Char} {t : Token} {a : Candidate}
    (position : a.position = found.length) (gap : startsGap rest = true)
    (fresh : a.isStale m = false) (deep : indent ≤ m.column) :
    (place ⟨':' :: rest, m⟩ false (some a) indent outer (t :: found)).fetch =
      some (if indent < a.mark.column then
          place ⟨rest, m.advance 1⟩ false none a.mark.column (indent :: outer)
            (.value :: t :: .key :: .blockRecordStart :: found)
        else place ⟨rest, m.advance 1⟩ false none indent outer (.value :: t :: .key :: found)) := by
  have starts : StartsToken ':' := ⟨by decide, by decide, by decide⟩
  have kept : refresh m (some a) = some (some a) := by simp [refresh, fresh]
  have isValue :
      (place ⟨':' :: rest, m⟩ false (some a) indent outer (t :: found)).fetchFrom ':' rest =
        (place ⟨':' :: rest, m⟩ false (some a) indent outer (t :: found)).fetchValue := by
    simp [fetchFrom, startsMarker, gap]
  rw [fetch_place (gapFrom_token starts rest) (by rw [kept]; rfl) kept]
  dsimp only
  rw [unroll_place_of_le deep, isValue, fetchValue_place position]

/-- A name, up to the colon behind it. -/
theorem leads_key {n : Nat} {name : String} {rest : List Char} (isName : IsName name)
    (gap : startsGap rest = true) (deep : indent ≤ (m.advance n).column) :
    ∃ m', (m.advance n).column < m'.column ∧
      Leads (place ⟨indentation n ++ (name.toList ++ ':' :: rest), m⟩ true none indent outer found)
        (if indent < (m.advance n).column then
          place ⟨rest, m'⟩ false none (m.advance n).column (indent :: outer)
            (.value :: .scalar .plain name.toList :: .key :: .blockRecordStart :: found)
        else place ⟨rest, m'⟩ false none indent outer
          (.value :: .scalar .plain name.toList :: .key :: found)) := by
  obtain ⟨plain, some⟩ := isName.allowsPlain
  have length : 0 < name.toList.length := List.length_pos_iff.mpr some
  have first := @fetch_plain true indent outer found m n name.toList (':' :: rest) plain some deep
    fun _ => not_startsMarker_of_isName isName rest
  rw [plainFrom_colon gap, List.reverse_reverse] at first
  have fresh : Candidate.isStale
      { required := indent == (m.advance n).column, position := found.length, mark := m.advance n }
      (m.advance (n + name.toList.length)) = false := by
    have short := isName.2
    have near : ¬m.index + n + maxKeyLength < m.index + (n + name.toList.length) := by omega
    rw [Candidate.isStale, Bool.or_eq_false_iff]
    exact ⟨decide_eq_false (Nat.lt_irrefl _), decide_eq_false near⟩
  have second := @fetch_colon indent outer found (m.advance (n + name.toList.length)) rest
    (.scalar .plain name.toList)
    { required := indent == (m.advance n).column, position := found.length, mark := m.advance n }
    rfl gap fresh (by rw [Mark.column_advance] at deep ⊢; omega)
  refine ⟨(m.advance (n + name.toList.length)).advance 1, ?_, .trans (.of_fetch first rfl ?_)
    (.of_fetch second ?_ ?_)⟩
  · simp only [Mark.column_advance]
    omega
  · obtain ⟨d, l, same⟩ := List.exists_cons_of_ne_nil some
    rw [same] at plain
    obtain ⟨⟨noGap, -⟩, -⟩ := starts_of_allowsPlain plain []
    change visible (':' :: rest) < visible (indentation n ++ (name.toList ++ ':' :: rest))
    rw [visible_indentation, same, List.cons_append, visible_token _ (by decide),
      visible_token _ (ne_of_not_isGap noGap).1, List.length_append, List.length_cons]
    omega
  · split <;> rfl
  · have fewer := visible_le rest
    have all : visible (':' :: rest) = rest.length + 1 := visible_token rest (by decide)
    split
    · exact all ▸ Nat.lt_succ_of_le fewer
    · exact all ▸ Nat.lt_succ_of_le fewer

/-! ## Entries -/

/-- The hyphen of an entry in the column of the block around it. -/
theorem leads_entry {n : Nat} {rest : List Char} (gap : startsGap rest = true)
    (start : m.column = 0) : ∃ m', m'.column = n + 1 ∧
      Leads (place ⟨indentation n ++ '-' :: rest, m⟩ true none n outer found)
        (place ⟨rest, m'⟩ true none n outer (.blockEntry :: found)) := by
  have starts : StartsToken '-' := ⟨by decide, by decide, by decide⟩
  have column : (m.advance n).column = n := by simp [start]
  have noMarker : startsMarker ('-' :: rest) = false := by
    cases rest with
    | nil => rfl
    | cons d rest =>
      have other : d ≠ '-' := by
        rintro rfl
        exact Bool.false_ne_true gap
      rw [startsMarker.eq_def]
      split
      · rename_i same
        cases same
        exact absurd rfl other
      · rename_i same
        cases same
      · rfl
  have isEntry : (place ⟨'-' :: rest, m.advance n⟩ true none n outer found).fetchFrom '-' rest =
      (place ⟨'-' :: rest, m.advance n⟩ true none n outer found).fetchEntry := by
    simp [fetchFrom, noMarker, gap]
  have noBlock : ¬(n : Int) < (m.advance n).column := by omega
  refine ⟨(m.advance n).advance 1, by simp [start], .of_fetch ?_ rfl ?_⟩
  · rw [fetch_place (gapFrom_line starts n rest) rfl rfl]
    dsimp only
    rw [unroll_place_of_le (by omega), isEntry, fetchEntry]
    change ((place ⟨'-' :: rest, m.advance n⟩ true none n outer found).roll (m.advance n).column
      found.length .blockListStart).dropCandidate.bind _ = _
    rw [roll_place_self _ noBlock]
    rfl
  · change visible rest < visible (indentation n ++ '-' :: rest)
    rw [visible_indentation, visible_token _ (by decide)]
    exact Nat.lt_succ_of_le (visible_le rest)

/-! ## Brackets -/

inductive Brackets : Char → Char → Token → Token → Prop where
  | list : Brackets '[' ']' .flowListStart .flowListEnd
  | record : Brackets '\x7b' '\x7d' .flowRecordStart .flowRecordEnd

/-- An empty list or record with its line. -/
theorem leads_brackets {n : Nat} {a b : Char} {t u : Token} {next : List Char}
    (brackets : Brackets a b t u) (follows : Follows n next) (deep : n < m.column) :
    LeadsToLine (place ⟨' ' :: a :: b :: ahead ['\n'] next, m⟩ false none n outer found)
      next n outer (u :: t :: found) := by
  have starts : StartsToken a := by
    cases brackets <;> exact ⟨by decide, by decide, by decide⟩
  have column : (n : Int) ≤ (m.advance 1).column := by
    rw [Mark.column_advance]
    omega
  have first : (place ⟨' ' :: a :: b :: ahead ['\n'] next, m⟩ false none n outer found).fetch =
      some { place ⟨b :: ahead ['\n'] next, m.advance 2⟩ true none n outer (t :: found) with
        flowLevel := 1, outerCandidates := [none] } := by
    have gap := @gapFrom_line false m a starts 1 (b :: ahead ['\n'] next)
    rw [fetch_place gap rfl rfl]
    dsimp only
    rw [unroll_place_of_le column]
    cases brackets <;> rfl
  have second : ({ place ⟨b :: ahead ['\n'] next, m.advance 2⟩ true none n outer (t :: found) with
        flowLevel := 1, outerCandidates := [none] } : Scanner).fetch =
      some (place ⟨ahead ['\n'] next, m.advance 3⟩ false none n outer (u :: t :: found)) := by
    cases brackets <;> rfl
  obtain ⟨m', start, leads⟩ := @leads_of_newline false none n outer (u :: t :: found)
    (m.advance 3) n next follows (idle_none _)
  refine ⟨m', start, .trans (.of_fetch first rfl ?_) (.trans (.of_fetch second rfl ?_) leads)⟩
  · change visible (b :: ahead ['\n'] next) < visible (' ' :: a :: b :: ahead ['\n'] next)
    rw [visible_space _ (ne_of_not_isGap starts.1).1]
    exact Nat.lt_succ_of_le (visible_le _)
  · change visible (ahead ['\n'] next) < visible (b :: ahead ['\n'] next)
    have closes : b ≠ ' ' := by cases brackets <;> decide
    rw [visible_token _ closes]
    exact Nat.lt_succ_of_le (visible_le _)

end Scanner

end RoomAudio.Yaml
