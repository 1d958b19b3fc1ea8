import RoomAudio.Proofs.Yaml.Complete

/-!
# Inside of a list

As long as the brackets and blocks that begin in an entry of a list end in it, the grammar sees
nothing of what stands behind the list while it is inside of the entry.

## Main definitions

* `Yaml.areEntries` — the tokens of the entries of a list.
* `Yaml.Grammar.Acts` — a step whatever stands behind, and whatever is expected later.
* `Yaml.Grammar.Outcome` — a step that leaves the brackets and blocks around it as they are.
* `Yaml.Grammar.exists_step` — the outcome of every step inside of an entry.
-/

namespace RoomAudio.Yaml

/-- Whether the brackets and blocks that are open at depth `d` end with the tokens, of which the
ones outside of all brackets and blocks are no keys and no values. A key is not left out in front of
a bracket that ends a list, since that bracket would be passed in place of it. -/
def areEntries (d : Nat) : List Token → Bool
  | [] => d == 0
  | t :: rest =>
    match t with
    | .blockListStart => areEntries (d + 1) rest
    | .blockRecordStart => areEntries (d + 1) rest
    | .flowListStart => areEntries (d + 1) rest
    | .flowRecordStart => areEntries (d + 1) rest
    | .blockEnd => 0 < d && areEntries (d - 1) rest
    | .flowListEnd => 0 < d && areEntries (d - 1) rest
    | .flowRecordEnd => 0 < d && areEntries (d - 1) rest
    | .key => 0 < d && rest.head? != some .flowListEnd && areEntries d rest
    | .value => 0 < d && areEntries d rest
    | _ => areEntries d rest

def Token.isProperty : Token → Bool
  | .anchor _ => true
  | .tag _ _ => true
  | _ => false

/-- What is left of the tokens behind the properties of a value. -/
def afterProperties : List Token → List Token
  | .anchor _ :: .tag _ _ :: rest => rest
  | .tag _ _ :: .anchor _ :: rest => rest
  | .anchor _ :: rest => rest
  | .tag _ _ :: rest => rest
  | rest => rest

namespace Expected

/-- How many brackets or blocks are open where this is expected. -/
def depth : Expected → Nat
  | blockListEntry | blockRecordKey | blockRecordValue | flowListEntry | flowPairKey
  | flowPairValue | flowPairEnd | flowRecordKey | flowRecordValue | flowRecordNoValue => 1
  | _ => 0

/-- How many of them are open where these are expected, one after the other. -/
def depths : List Expected → Nat
  | [] => 0
  | e :: later => e.depth + depths later

@[simp] theorem depths_nil : depths [] = 0 := rfl

@[simp] theorem depths_cons (e : Expected) (later : List Expected) :
    depths (e :: later) = e.depth + depths later := rfl

@[simp] theorem depths_append (states later : List Expected) :
    depths (states ++ later) = depths states + depths later := by
  induction states with
  | nil => simp
  | cons e states ih => simp [ih, Nat.add_assoc]

/-- What may be expected in front of tokens inside of a document. -/
def Ready (l : List Token) : Expected → Prop
  | blockListFirst => ∃ rest, l = .blockListStart :: rest
  | blockRecordFirst => ∃ rest, l = .blockRecordStart :: rest
  | flowListFirst => ∃ rest, l = .flowListStart :: rest
  | flowRecordFirst => ∃ rest, l = .flowRecordStart :: rest
  | flowPairKey => l.head? ≠ some .flowListEnd
  | firstDocument | nextDocument | documentContent | documentEnd | blockNode | nothing => False
  | _ => True

end Expected

variable {l l' Z : List Token} {handles : List (List Char × List Char)} {e : Expected}
  {later : List Expected} {ev : Event} {g g' : Grammar} {block bare : Bool} {d : Nat}

/-! ## Properties -/

theorem areEntries_afterProperties (d : Nat) (l : List Token) :
    areEntries d (afterProperties l) = areEntries d l := by
  fun_cases afterProperties l <;> grind [areEntries]

theorem exists_properties (l : List Token) :
    ∃ ps, l = ps ++ afterProperties l ∧ ∀ t ∈ ps, t.isProperty = true := by
  fun_cases afterProperties l with
  | case1 | case2 => exact ⟨[_, _], rfl, by simp [Token.isProperty]⟩
  | case3 | case4 => exact ⟨[_], rfl, by simp [Token.isProperty]⟩
  | case5 => exact ⟨[], rfl, by simp⟩

theorem afterProperties_append (plain : ∀ t ∈ Z.head?, t.isProperty = false) (l : List Token) :
    afterProperties (l ++ Z) = afterProperties l ++ Z := by
  rcases l with _ | ⟨a, _ | ⟨b, l⟩⟩
  · change afterProperties Z = Z
    fun_cases afterProperties Z <;> simp_all [Token.isProperty]
  · rcases Z with _ | ⟨t, Z⟩
    · cases a <;> rfl
    · have plain := plain t rfl
      cases t with
      | anchor | tag => cases plain
      | _ => cases a <;> rfl
  · cases a <;> cases b <;> rfl

namespace Grammar

/-- The properties in front of a value. -/
def propertiesOf (handles : List (List Char × List Char)) : List Token → Option Properties
  | .anchor name :: .tag handle suffix :: _ =>
    (resolveTag handles handle suffix).map fun tag => { anchor := some name, tag := some tag }
  | .tag handle suffix :: .anchor name :: _ =>
    (resolveTag handles handle suffix).map fun tag => { anchor := some name, tag := some tag }
  | .anchor name :: _ => some { anchor := some name }
  | .tag handle suffix :: _ =>
    (resolveTag handles handle suffix).map fun tag => { tag := some tag }
  | _ => some {}

theorem propertiesOf_append (plain : ∀ t ∈ Z.head?, t.isProperty = false) (l : List Token) :
    propertiesOf handles (l ++ Z) = propertiesOf handles l := by
  rcases l with _ | ⟨a, _ | ⟨b, l⟩⟩
  · change propertiesOf handles Z = some {}
    fun_cases propertiesOf handles Z <;> simp_all [Token.isProperty]
  · rcases Z with _ | ⟨t, Z⟩
    · cases a <;> rfl
    · have plain := plain t rfl
      cases t with
      | anchor | tag => cases plain
      | _ => cases a <;> rfl
  · cases a <;> cases b <;> rfl

/-- Properties are read in front of a value and passed. -/
theorem properties_eq : properties ⟨l, e, later, handles⟩ =
    (propertiesOf handles l).map fun p => (p, ⟨afterProperties l, e, later, handles⟩) := by
  rcases l with _ | ⟨a, _ | ⟨b, l⟩⟩
  · rfl
  · cases a with
    | tag handle suffix =>
      simp only [properties, propertiesOf, afterProperties]
      cases resolveTag handles handle suffix <;> rfl
    | _ => rfl
  · cases a with
    | tag handle suffix =>
      cases b
      all_goals
        simp only [properties, propertiesOf, afterProperties]
        cases resolveTag handles handle suffix <;> rfl
    | anchor name =>
      cases b with
      | tag handle suffix =>
        simp only [properties, propertiesOf, afterProperties]
        cases resolveTag handles handle suffix <;> rfl
      | _ => rfl
    | _ => rfl

/-- A value that is no alias stands behind its properties. -/
theorem node_eq (plain : ∀ t ∈ Z.head?, t.isProperty = false)
    (other : ∀ name rest, l ++ Z ≠ .alias name :: rest) :
    node ⟨l ++ Z, e, later, handles⟩ block bare =
      (propertiesOf handles l).bind fun p =>
        value ⟨afterProperties l ++ Z, e, later, handles⟩ p block bare := by
  unfold node
  split
  · rename_i name rest here
    exact absurd here (other name rest)
  · rw [properties_eq, propertiesOf_append plain, afterProperties_append plain]
    cases propertiesOf handles l <;> rfl

/-! ## Values -/

/-- The state with all that is expected, one after the other. -/
def stacked (tokens : List Token) (handles : List (List Char × List Char)) :
    List Expected → Grammar
  | [] => { tokens, expected := .nothing, handles }
  | e :: later => { tokens, expected := e, later, handles }

theorem resume_eq : (⟨l, e, later, handles⟩ : Grammar).resume = stacked l handles later := by
  cases later <;> rfl

/-- In front of the end of a block, and whatever is expected later, a step leaves the tokens `l'` of
the tokens `l`, and expects `states` first. -/
def Acts (f : Grammar → Step) (handles : List (List Char × List Char)) (l : List Token)
    (ev : Event) (l' : List Token) (states : List Expected) : Prop :=
  ∀ Z e later, f ⟨l ++ .blockEnd :: Z, e, later, handles⟩ =
    some (ev, stacked (l' ++ .blockEnd :: Z) handles (states ++ later))

/-- A step that passes a token and is done. -/
theorem acts_pass {f : Grammar → Step} {t : Token}
    (same : ∀ Z e later, f ⟨t :: l ++ .blockEnd :: Z, e, later, handles⟩ =
      some (ev, Grammar.resume ⟨l ++ .blockEnd :: Z, e, later, handles⟩)) :
    Acts f handles (t :: l) ev l [] := fun Z e later => by
  rw [same, resume_eq]
  rfl

/-- What is expected inside of a value: nothing if it is over. -/
inductive Inside (l : List Token) : List Expected → Prop where
  | finished : Inside l []
  | begun {e : Expected} (depth : e.depth = 0) (ready : e.Ready l) : Inside l [e]

/-- Where nothing of a value is there, its properties stand for it. -/
theorem acts_leftOut {p : Properties} {g : Grammar}
    (found : (if p = {} then none else some (Event.scalar p .plain [], g)) = some (ev, g'))
    (l : List Token) :
    Acts (fun g => if p = {} then none else some (.scalar p .plain [], g.resume)) handles l ev l
      [] := by
  split at found
  · cases found
  · rename_i some
    cases found
    intro Z e later
    dsimp only
    rw [if_neg some, resume_eq]
    rfl

theorem acts_value {p : Properties}
    (found : value ⟨l ++ .blockEnd :: Z, e, later, handles⟩ p block bare = some (ev, g')) :
    ∃ l' states, Acts (value · p block bare) handles l ev l' states ∧
      (∀ d, areEntries d l = areEntries d l') ∧ Inside l' states := by
  unfold value at found
  rcases l with _ | ⟨t, l⟩
  · exact ⟨[], [], acts_leftOut found [], fun _ => rfl, .finished⟩
  cases t with
  | scalar style text =>
    cases found
    exact ⟨l, [], acts_pass fun _ _ _ => rfl, fun _ => rfl, .finished⟩
  | flowListStart =>
    cases found
    exact ⟨_, [.flowListFirst], fun _ _ _ => rfl, fun _ => rfl, .begun rfl ⟨l, rfl⟩⟩
  | flowRecordStart =>
    cases found
    exact ⟨_, [.flowRecordFirst], fun _ _ _ => rfl, fun _ => rfl, .begun rfl ⟨l, rfl⟩⟩
  | blockEntry =>
    cases bare with
    | true =>
      cases found
      exact ⟨_, [.bareListEntry], fun _ _ _ => rfl, fun _ => rfl, .begun rfl trivial⟩
    | false => exact ⟨_, [], acts_leftOut found (.blockEntry :: l), fun _ => rfl, .finished⟩
  | blockListStart =>
    cases block with
    | true =>
      cases found
      exact ⟨_, [.blockListFirst], fun _ _ _ => rfl, fun _ => rfl, .begun rfl ⟨l, rfl⟩⟩
    | false => exact ⟨_, [], acts_leftOut found (.blockListStart :: l), fun _ => rfl, .finished⟩
  | blockRecordStart =>
    cases block with
    | true =>
      cases found
      exact ⟨_, [.blockRecordFirst], fun _ _ _ => rfl, fun _ => rfl, .begun rfl ⟨l, rfl⟩⟩
    | false => exact ⟨_, [], acts_leftOut found (.blockRecordStart :: l), fun _ => rfl, .finished⟩
  | _ => exact ⟨_, [], acts_leftOut found (_ :: l), fun _ => rfl, .finished⟩

/-- A value is over after one step, or it has just begun. -/
theorem acts_node
    (found : node ⟨l ++ .blockEnd :: Z, e, later, handles⟩ block bare = some (ev, g')) :
    ∃ l' states, Acts (node · block bare) handles l ev l' states ∧
      (∀ d, areEntries d l = areEntries d l') ∧ Inside l' states := by
  by_cases named : ∃ name rest, l = .alias name :: rest
  · obtain ⟨name, rest, rfl⟩ := named
    cases found
    exact ⟨rest, [], acts_pass fun _ _ _ => rfl, fun _ => rfl, .finished⟩
  have other (Z : List Token) (name : List Char) (rest : List Token) :
      l ++ .blockEnd :: Z ≠ .alias name :: rest := by
    rcases l with _ | ⟨t, l⟩
    · exact nofun
    · exact fun same => named ⟨name, l, by rw [(List.cons.inj same).1]⟩
  have plain (Z : List Token) : ∀ t ∈ (Token.blockEnd :: Z).head?, t.isProperty = false := by
    simp [Token.isProperty]
  rw [node_eq (plain Z) (other Z)] at found
  obtain ⟨p, properties, found⟩ := Option.bind_eq_some_iff.mp found
  obtain ⟨l', states, acts, level, inside⟩ := acts_value found
  refine ⟨l', states, fun Z e later => ?_, fun d => ?_, inside⟩
  · dsimp only
    rw [node_eq (plain Z) (other Z), properties]
    exact acts Z e later
  · rw [← level, areEntries_afterProperties]

/-! ## Steps inside of a value -/

/-- What is expected next instead of something else, in front of the tokens `l`. -/
structure Proper (l : List Token) (states : List Expected) : Prop where
  ready : ∀ e ∈ states.head?, e.Ready l
  waits : ∀ e ∈ states.tail, ∀ l, e.Ready l

/-- Where `d` brackets and blocks are open around it, a step leaves tokens that end them all. -/
def Outcome (f : Grammar → Step) (handles : List (List Char × List Char)) (d : Nat)
    (l : List Token) (ev : Event) : Prop :=
  ∃ l' states, Acts f handles l ev l' states ∧
    areEntries (d + Expected.depths states) l' = true ∧ Proper l' states

namespace Outcome

variable {f : Grammar → Step}

theorem one (acts : Acts f handles l ev l' [e]) (level : areEntries (d + e.depth) l' = true)
    (ready : e.Ready l') : Outcome f handles d l ev :=
  ⟨l', [e], acts, by simpa using level, by simpa using ready, by simp⟩

theorem finished (acts : Acts f handles l ev l' []) (level : areEntries d l' = true) :
    Outcome f handles d l ev :=
  ⟨l', [], acts, by simpa using level, by simp, by simp⟩

/-- A value, and something else thereafter. -/
theorem node (next : Expected) (block bare : Bool) (wait : ∀ l, next.Ready l)
    (level : areEntries (d + next.depth) l' = true)
    (same : ∀ Z e later, f ⟨l ++ .blockEnd :: Z, e, later, handles⟩ =
      Grammar.node ⟨l' ++ .blockEnd :: Z, e, next :: later, handles⟩ block bare)
    (found : f ⟨l ++ .blockEnd :: Z, e, later, handles⟩ = some (ev, g')) :
    Outcome f handles d l ev := by
  rw [same] at found
  obtain ⟨l'', states, acts, level', inside⟩ := acts_node found
  refine ⟨l'', states ++ [next], fun Z e later => ?_, ?_, ?_⟩
  · refine (same Z e later).trans ((acts Z e (next :: later)).trans ?_)
    rw [List.append_assoc]
    rfl
  · cases inside with
    | finished => simpa [← level'] using level
    | begun depth => simpa [← level', depth] using level
  · cases inside with
    | finished => exact ⟨by simp [wait], by simp⟩
    | begun depth ready => exact ⟨by simpa using ready, by simpa using wait⟩

end Outcome

theorem outcome_blockListEntry (level : areEntries (d + 1) l = true)
    (found : blockListEntry ⟨l ++ .blockEnd :: Z, e, later, handles⟩ = some (ev, g')) :
    Outcome blockListEntry handles d l ev := by
  rcases l with _ | ⟨t, l⟩
  · simp [areEntries] at level
  cases t with
  | blockEntry =>
    change areEntries (d + 1) l = true at level
    rcases l with _ | ⟨t, l⟩
    · simp [areEntries] at level
    cases t with
    | blockEntry | blockEnd =>
      cases found
      exact .one (fun _ _ _ => rfl) level trivial
    | _ => exact .node .blockListEntry true false (fun _ => trivial) level (fun _ _ _ => rfl) found
  | blockEnd =>
    cases found
    exact .finished (acts_pass fun _ _ _ => rfl) (by simpa [areEntries] using level)
  | _ => cases found

theorem outcome_bareListEntry (level : areEntries d l = true)
    (found : bareListEntry ⟨l ++ .blockEnd :: Z, e, later, handles⟩ = some (ev, g')) :
    Outcome bareListEntry handles d l ev := by
  rcases l with _ | ⟨t, l⟩
  · cases found
    exact .finished (fun _ _ _ => congrArg (fun g => some (_, g)) resume_eq) level
  cases t with
  | blockEntry =>
    change areEntries d l = true at level
    rcases l with _ | ⟨t, l⟩
    · cases found
      exact .one (fun _ _ _ => rfl) level trivial
    cases t with
    | blockEntry | blockEnd | key | value =>
      cases found
      exact .one (fun _ _ _ => rfl) level trivial
    | _ => exact .node .bareListEntry true false (fun _ => trivial) level (fun _ _ _ => rfl) found
  | _ =>
    cases found
    exact .finished (fun _ _ _ => congrArg (fun g => some (_, g)) resume_eq) level

theorem outcome_blockRecordNode (next : Expected) (wait : ∀ l, next.Ready l)
    (level : areEntries (d + next.depth) l = true)
    (found : blockRecordNode ⟨l ++ .blockEnd :: Z, e, later, handles⟩ next = some (ev, g')) :
    Outcome (blockRecordNode · next) handles d l ev := by
  rcases l with _ | ⟨t, l⟩
  · cases found
    exact .one (fun _ _ _ => rfl) level (wait _)
  cases t with
  | key | value | blockEnd =>
    cases found
    exact .one (fun _ _ _ => rfl) level (wait _)
  | _ => exact .node next true true wait level (fun _ _ _ => rfl) found

theorem outcome_blockRecordKey (level : areEntries (d + 1) l = true)
    (found : blockRecordKey ⟨l ++ .blockEnd :: Z, e, later, handles⟩ = some (ev, g')) :
    Outcome blockRecordKey handles d l ev := by
  rcases l with _ | ⟨t, l⟩
  · simp [areEntries] at level
  cases t with
  | key =>
    have level : areEntries (d + 1) l = true := by grind [areEntries]
    exact outcome_blockRecordNode .blockRecordValue (fun _ => trivial) level found
  | blockEnd =>
    cases found
    exact .finished (acts_pass fun _ _ _ => rfl) (by simpa [areEntries] using level)
  | _ => cases found

theorem outcome_blockRecordValue (level : areEntries (d + 1) l = true)
    (found : blockRecordValue ⟨l ++ .blockEnd :: Z, e, later, handles⟩ = some (ev, g')) :
    Outcome blockRecordValue handles d l ev := by
  rcases l with _ | ⟨t, l⟩
  · simp [areEntries] at level
  cases t with
  | value =>
    have level : areEntries (d + 1) l = true := by grind [areEntries]
    exact outcome_blockRecordNode .blockRecordKey (fun _ => trivial) level found
  | _ =>
    cases found
    exact .one (fun _ _ _ => rfl) level trivial

theorem outcome_flowListNode (level : areEntries (d + 1) l = true)
    (found : flowListNode ⟨l ++ .blockEnd :: Z, e, later, handles⟩ = some (ev, g')) :
    Outcome flowListNode handles d l ev := by
  rcases l with _ | ⟨t, l⟩
  · simp [areEntries] at level
  cases t with
  | key =>
    cases found
    simp only [areEntries, Bool.and_eq_true, bne_iff_ne] at level
    exact .one (fun _ _ _ => rfl) level.2 level.1.2
  | flowListEnd =>
    cases found
    exact .finished (acts_pass fun _ _ _ => rfl) (by simpa [areEntries] using level)
  | _ => exact .node .flowListEntry false false (fun _ => trivial) level (fun _ _ _ => rfl) found

theorem outcome_flowListEntry (level : areEntries (d + 1) l = true)
    (found : flowListEntry ⟨l ++ .blockEnd :: Z, e, later, handles⟩ = some (ev, g')) :
    Outcome flowListEntry handles d l ev := by
  rcases l with _ | ⟨t, l⟩
  · simp [areEntries] at level
  cases t with
  | flowListEnd =>
    cases found
    exact .finished (acts_pass fun _ _ _ => rfl) (by simpa [areEntries] using level)
  | flowEntry => exact outcome_flowListNode (l := l) level found
  | _ => cases found

theorem outcome_flowPairKey (level : areEntries (d + 1) l = true)
    (ready : l.head? ≠ some .flowListEnd)
    (found : flowPairKey ⟨l ++ .blockEnd :: Z, e, later, handles⟩ = some (ev, g')) :
    Outcome flowPairKey handles d l ev := by
  rcases l with _ | ⟨t, l⟩
  · simp [areEntries] at level
  cases t with
  | value | flowEntry =>
    cases found
    have level : areEntries (d + 1) l = true := by grind [areEntries]
    exact .one (fun _ _ _ => rfl) level trivial
  | flowListEnd => exact absurd rfl ready
  | _ => exact .node .flowPairValue false false (fun _ => trivial) level (fun _ _ _ => rfl) found

theorem outcome_flowPairValue (level : areEntries (d + 1) l = true)
    (found : flowPairValue ⟨l ++ .blockEnd :: Z, e, later, handles⟩ = some (ev, g')) :
    Outcome flowPairValue handles d l ev := by
  rcases l with _ | ⟨t, l⟩
  · simp [areEntries] at level
  cases t with
  | value =>
    have level : areEntries (d + 1) l = true := by grind [areEntries]
    rcases l with _ | ⟨t, l⟩
    · simp [areEntries] at level
    cases t with
    | flowEntry | flowListEnd =>
      cases found
      exact .one (fun _ _ _ => rfl) level trivial
    | _ => exact .node .flowPairEnd false false (fun _ => trivial) level (fun _ _ _ => rfl) found
  | _ =>
    cases found
    exact .one (fun _ _ _ => rfl) level trivial

theorem outcome_flowRecordNode (level : areEntries (d + 1) l = true)
    (found : flowRecordNode ⟨l ++ .blockEnd :: Z, e, later, handles⟩ = some (ev, g')) :
    Outcome flowRecordNode handles d l ev := by
  rcases l with _ | ⟨t, l⟩
  · simp [areEntries] at level
  cases t with
  | key =>
    have level : areEntries (d + 1) l = true := by grind [areEntries]
    rcases l with _ | ⟨t, l⟩
    · simp [areEntries] at level
    cases t with
    | value | flowEntry | flowRecordEnd =>
      cases found
      exact .one (fun _ _ _ => rfl) level trivial
    | _ =>
      exact .node .flowRecordValue false false (fun _ => trivial) level (fun _ _ _ => rfl) found
  | flowRecordEnd =>
    cases found
    exact .finished (acts_pass fun _ _ _ => rfl) (by simpa [areEntries] using level)
  | _ =>
    exact .node .flowRecordNoValue false false (fun _ => trivial) level (fun _ _ _ => rfl) found

theorem outcome_flowRecordKey (level : areEntries (d + 1) l = true)
    (found : flowRecordKey ⟨l ++ .blockEnd :: Z, e, later, handles⟩ = some (ev, g')) :
    Outcome flowRecordKey handles d l ev := by
  rcases l with _ | ⟨t, l⟩
  · simp [areEntries] at level
  cases t with
  | flowRecordEnd =>
    cases found
    exact .finished (acts_pass fun _ _ _ => rfl) (by simpa [areEntries] using level)
  | flowEntry => exact outcome_flowRecordNode (l := l) level found
  | _ => cases found

theorem outcome_flowRecordValue (level : areEntries (d + 1) l = true)
    (found : flowRecordValue ⟨l ++ .blockEnd :: Z, e, later, handles⟩ = some (ev, g')) :
    Outcome flowRecordValue handles d l ev := by
  rcases l with _ | ⟨t, l⟩
  · simp [areEntries] at level
  cases t with
  | value =>
    have level : areEntries (d + 1) l = true := by grind [areEntries]
    rcases l with _ | ⟨t, l⟩
    · simp [areEntries] at level
    cases t with
    | flowEntry | flowRecordEnd =>
      cases found
      exact .one (fun _ _ _ => rfl) level trivial
    | _ => exact .node .flowRecordKey false false (fun _ => trivial) level (fun _ _ _ => rfl) found
  | _ =>
    cases found
    exact .one (fun _ _ _ => rfl) level trivial

/-- A step inside of an entry leaves the brackets and blocks around it as they are, and does not
depend on what stands behind the end of the list. -/
theorem exists_step (level : areEntries (d + e.depth) l = true) (ready : e.Ready l)
    (found : step ⟨l ++ .blockEnd :: Z, e, later, handles⟩ = some (ev, g')) :
    ∃ l' states, (∀ Z later, step ⟨l ++ .blockEnd :: Z, e, later, handles⟩ =
        some (ev, stacked (l' ++ .blockEnd :: Z) handles (states ++ later))) ∧
      areEntries (d + Expected.depths states) l' = true ∧ Proper l' states := by
  have of {f : Grammar → Step} {e' : Expected} {l₁ : List Token}
      (outcome : Outcome f handles d l₁ ev)
      (same : ∀ Z later, step ⟨l ++ .blockEnd :: Z, e, later, handles⟩ =
        f ⟨l₁ ++ .blockEnd :: Z, e', later, handles⟩) :
      ∃ l' states, (∀ Z later, step ⟨l ++ .blockEnd :: Z, e, later, handles⟩ =
          some (ev, stacked (l' ++ .blockEnd :: Z) handles (states ++ later))) ∧
        areEntries (d + Expected.depths states) l' = true ∧ Proper l' states := by
    obtain ⟨l', states, acts, level, proper⟩ := outcome
    exact ⟨l', states, fun Z later => (same Z later).trans (acts Z e' later), level, proper⟩
  cases e with
  | blockListFirst =>
    obtain ⟨rest, rfl⟩ := ready
    exact of (outcome_blockListEntry level found) fun _ _ => rfl
  | blockListEntry => exact of (outcome_blockListEntry level found) fun _ _ => rfl
  | bareListEntry => exact of (outcome_bareListEntry level found) fun _ _ => rfl
  | blockRecordFirst =>
    obtain ⟨rest, rfl⟩ := ready
    exact of (outcome_blockRecordKey level found) fun _ _ => rfl
  | blockRecordKey => exact of (outcome_blockRecordKey level found) fun _ _ => rfl
  | blockRecordValue => exact of (outcome_blockRecordValue level found) fun _ _ => rfl
  | flowListFirst =>
    obtain ⟨rest, rfl⟩ := ready
    exact of (outcome_flowListNode level found) fun _ _ => rfl
  | flowListEntry => exact of (outcome_flowListEntry level found) fun _ _ => rfl
  | flowPairKey => exact of (outcome_flowPairKey level ready found) fun _ _ => rfl
  | flowPairValue => exact of (outcome_flowPairValue level found) fun _ _ => rfl
  | flowPairEnd =>
    cases found
    exact ⟨l, [.flowListEntry], fun _ _ => rfl, level, by simp [Expected.Ready], by simp⟩
  | flowRecordFirst =>
    obtain ⟨rest, rfl⟩ := ready
    exact of (outcome_flowRecordNode level found) fun _ _ => rfl
  | flowRecordKey => exact of (outcome_flowRecordKey level found) fun _ _ => rfl
  | flowRecordValue => exact of (outcome_flowRecordValue level found) fun _ _ => rfl
  | flowRecordNoValue =>
    rcases l with _ | ⟨t, l⟩
    · simp [areEntries, Expected.depth] at level
    cases found
    exact ⟨t :: l, [.flowRecordKey], fun _ _ => rfl, level, by simp [Expected.Ready], by simp⟩
  | firstDocument | nextDocument | documentContent | documentEnd | blockNode | nothing =>
    exact ready.elim

end Grammar

end RoomAudio.Yaml
