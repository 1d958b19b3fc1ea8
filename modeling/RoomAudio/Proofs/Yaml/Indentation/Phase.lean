import RoomAudio.Proofs.Yaml.BareList
import RoomAudio.Proofs.Yaml.Indentation.Step

/-!
# Phases of an indented text

As long as the scanner of an indented text is on the first line, all blocks that are open have
moved to the right with it. The blocks of later lines have not. So the scanners of the indented text
and of the text alone go along if what stands on later lines stands to the right of the blocks of
the first line, at both places. A block scalar opens no block and may stand in the column of one.
So may the entries of a list whose record ends with it: in the text alone they are to the right of
the record and have a block of their own.

## Main definitions

* `Yaml.Phase` — what of an indented text is passed.
* `Yaml.Phase.next` — the phase of the next token.
* `Yaml.Phase.pairing` — how the two scanners go along.
* `Yaml.Phase.lawful`, `Yaml.Phase.closes_end` — the laws of going along.
-/

namespace RoomAudio.Yaml

open Pairing

/-- What of an indented text is passed. -/
inductive Phase where
  /-- Its first line. -/
  | first
  /-- The lines that are indented deeper than the blocks of the first line, the deepest of which
  stands in column `edge`. -/
  | deeper (edge : Int)
  /-- The entries of a list in column `edge`, in which the record of the first line stands, too. The
  tokens in front of the list are held, the last one first. -/
  | list (edge : Int) (front : List Token) (begins : Grammar.beginsRecord front.reverse = true)
  /-- All of a record that ends with such a list. -/
  | behind (record : BareList)

namespace Scanner

def edge (t : Scanner) : Int := t.outer.foldr max t.indent

/-- Whether no document marker and no byte order mark stands here at the beginning of a text that
is indented by `k` spaces. -/
def beginsAlike (k : Nat) (t : Scanner) : Bool :=
  !(t.cursor.mark.line == 0 && t.column == k &&
    (startsMarker t.cursor.rest || t.cursor.rest.head? == some byteOrderMark))

def isBehindPlain (t : Scanner) : Bool :=
  match t.found with
  | .scalar .plain _ :: _ => true
  | _ => false

/-- Whether a token begins to the right of column `edge`. A block scalar may begin in it, too, if it
is not a line of a plain scalar when the text is not indented. -/
def isDeep (edge : Int) (t : Scanner) : Bool :=
  edge < t.column ||
    (edge == t.column && (t.cursor.rest.head?.bind blockStyle?).isSome && !t.isBehindPlain)

/-- Whether the entry of a list begins here, in the column of a record that is the outermost
block. -/
def beginsList (t : Scanner) : Bool :=
  t.indent == t.column && t.outer == [-1] &&
    match t.cursor.rest with
    | [] => false
    | c :: rest => c == '-' && startsGap rest

/-- The tokens of the entries of a list that ends here, if `n` tokens stand in front of them. -/
def entries (n : Nat) (t : Scanner) : List Token := (t.unroll (-1)).found.tail.reverse.drop n

end Scanner

namespace Phase

/-- The list that begins in the column of the record around it, which is the value of the first key
of the record. -/
def ofList (t : Scanner) : Option Phase :=
  if begins : Grammar.beginsRecord t.found.reverse = true then
    if t.beginsList then some (list t.indent t.found begins) else none
  else none

/-- The record that ends here together with the list in it. -/
def ofEnd (t : Scanner) (front : List Token) (begins : Grammar.beginsRecord front.reverse = true) :
    Option Phase :=
  if first : (t.entries front.length).head? = some .blockEntry then
    if level : areEntries 0 (t.entries front.length) = true then
      some (behind ⟨front.reverse, t.entries front.length, begins, first, level⟩)
    else none
  else none

/-- The phase of the token that begins here. There is none if the token means something else when
the text is not indented. -/
def next (t : Scanner) : Phase → Option Phase
  | first =>
    if t.isOutside && 0 < t.cursor.mark.line then
      if t.isDeep t.edge then some (deeper t.edge) else ofList t
    else some first
  | deeper edge =>
    if t.isOutside then
      if t.cursor.mark.line = 0 then none
      else if t.isDeep edge then some (deeper edge)
      else ofList t
    else some (deeper edge)
  | list edge front begins =>
    if t.inFlow then
      if t.cursor.rest.isEmpty then none else some (list edge front begins)
    else if t.isOutside then
      if 0 < t.cursor.mark.line && edge ≤ t.column then some (list edge front begins) else none
    else ofEnd t front begins
  | behind record => if t.inFlow || t.isOutside then none else some (behind record)

/-- The column of a block when the text is not indented. -/
def lowered (k : Nat) (phase : Phase) (i : Int) : Int :=
  match phase with
  | first => if i < 0 then i else i - k
  | deeper edge => if i < 0 ∨ edge < i then i else i - k
  | list _ _ _ => i
  | behind _ => i

/-- Whether a block scalar that begins here is the same when the text is not indented. -/
def readsAlike (k : Nat) (phase : Phase) (t : Scanner) : Bool :=
  match t.cursor.rest.head?.bind blockStyle? with
  | none => true
  | some style =>
    let i := (t.unroll t.column).indent
    !t.isOutside ||
      readBlock style i (t.cursor.skip 1) = readBlock style (phase.lowered k i) (t.cursor.skip 1)

/-- The column in the indented text of a block of the first line. -/
def shifted (k : Nat) (i : Int) : Int := if i < 0 then i else i + k

/-- In the text alone a list has a block of its own around its entries. -/
def listBlocks (k : Nat) (edge : Int) (l l' : List Int) : Prop :=
  ∃ new, l = new ++ [edge, -1] ∧ l' = new ++ [edge, edge - k, -1] ∧ (∀ i ∈ new, edge < i) ∧
    k ≤ edge

/-- Which blocks belong together: those of the first line are shifted. -/
def blocks (k : Nat) : Phase → List Int → List Int → Prop
  | first, l, l' => l = l'.map (shifted k) ∧ l'.getLast? = some (-1)
  | deeper edge, l, l' => ∃ new low, l = new ++ low.map (shifted k) ∧ l' = new ++ low ∧
      (∀ i ∈ new, edge < i) ∧ (∀ i ∈ low, shifted k i ≤ edge) ∧ low.getLast? = some (-1)
  | list edge _ _, l, l' => listBlocks k edge l l'
  | behind _, l, l' => l = [-1] ∧ l' = [-1]

/-- Where a key may begin outside of brackets. -/
def place : Phase → Mark → Prop
  | first, m => m.line = 0
  | deeper edge, m => m.line = 0 ∨ edge < m.column
  | list edge _ _, m => m.line = 0 ∨ edge ≤ m.column
  | behind _, _ => False

/-- The tokens found so far that are not looked at again. -/
def before : Phase → List Token
  | first | deeper _ => []
  | list _ front _ => front
  | behind record => record.tokens.reverse

/-- In the text alone a list has a block of its own. -/
def before' : Phase → List Token
  | first | deeper _ => []
  | list _ front _ => .blockListStart :: front
  | behind record => record.boxed.reverse

/-- How the two scanners go along in a phase. -/
@[simps] def pairing (k : Nat) (phase : Phase) : Pairing where
  width := k
  blocks := phase.blocks k
  place := phase.place
  before := phase.before
  before' := phase.before'

attribute [grind =] pairing_width pairing_blocks pairing_place

variable {k : Nat} {phase phase' : Phase} {m : Mark} {edge i i' : Int} {l l' : List Int}
  {front : List Token} {begins : Grammar.beginsRecord front.reverse = true} {s t t' : Scanner}

/-! ## The innermost block -/

theorem first_cons (h : first.blocks k (i :: l) (i' :: l')) :
    i = shifted k i' ∧ (i' = -1 ∨ l ≠ [] ∧ l' ≠ [] ∧ first.blocks k l l') := by
  obtain ⟨same, last⟩ := h
  obtain ⟨rfl, rfl⟩ := List.cons.inj same
  refine ⟨rfl, ?_⟩
  cases l' with
  | nil => exact .inl (by simpa using last)
  | cons j l' => exact .inr ⟨by simp, by simp, rfl, by simpa using last⟩

theorem deeper_cons (h : (deeper edge).blocks k (i :: l) (i' :: l')) :
    (i = i' ∧ edge < i ∨ i = shifted k i' ∧ i ≤ edge) ∧
      (i' = -1 ∧ i ≤ edge ∨ l ≠ [] ∧ l' ≠ [] ∧ (deeper edge).blocks k l l') := by
  obtain ⟨new, low, same, same', above, below, last⟩ := h
  have more : low ≠ [] := by
    rintro rfl
    cases last
  cases new with
  | cons j new =>
    obtain ⟨rfl, rfl⟩ := List.cons.inj same
    obtain ⟨rfl, rfl⟩ := List.cons.inj same'
    have above' : ∀ i ∈ new, edge < i := fun i mem => above i (by simp [mem])
    exact ⟨.inl ⟨rfl, above _ (by simp)⟩, .inr ⟨by simp [more], by simp [more],
      new, low, rfl, rfl, above', below, last⟩⟩
  | nil =>
    obtain rfl : i' :: l' = low := same'
    obtain ⟨rfl, rfl⟩ := List.cons.inj same
    refine ⟨.inr ⟨rfl, below _ (by simp)⟩, ?_⟩
    cases l' with
    | nil => exact .inl ⟨by simpa using last, below _ (by simp)⟩
    | cons j l' =>
      refine .inr ⟨by simp, by simp, [], _, rfl, rfl, by simp, ?_, by simpa using last⟩
      exact fun i mem => below i (by simpa using .inr (by simpa using mem))

theorem list_cons (h : listBlocks k edge (i :: l) (i' :: l')) :
    i' = i ∧ k ≤ edge ∧ (i = edge ∧ l = [-1] ∧ l' = [edge - k, -1] ∨
      edge < i ∧ l ≠ [] ∧ l' ≠ [] ∧ listBlocks k edge l l') := by
  obtain ⟨new, same, same', above, wide⟩ := h
  cases new with
  | nil =>
    obtain ⟨rfl, rfl⟩ := List.cons.inj same
    obtain ⟨rfl, rfl⟩ := List.cons.inj same'
    exact ⟨rfl, wide, .inl ⟨rfl, rfl, rfl⟩⟩
  | cons j new =>
    obtain ⟨rfl, rfl⟩ := List.cons.inj same
    obtain ⟨rfl, rfl⟩ := List.cons.inj same'
    have above' : ∀ i ∈ new, edge < i := fun i mem => above i (by simp [mem])
    exact ⟨rfl, wide, .inr ⟨above _ (by simp), by simp, by simp, new, rfl, rfl, above', wide⟩⟩

/-! ## Laws -/

theorem first_push (h : first.blocks k (i :: l) (i' :: l')) {c : Int} (right : 0 ≤ c) :
    first.blocks k ((c + k) :: i :: l) (c :: i' :: l') := by
  obtain ⟨same, last⟩ := h
  refine ⟨?_, by simpa using last⟩
  rw [List.map_cons, ← same, shifted, if_neg (by omega)]

theorem deeper_push (h : (deeper edge).blocks k l l') {c : Int} (deep : edge < c) :
    (deeper edge).blocks k (c :: l) (c :: l') := by
  obtain ⟨new, low, rfl, rfl, above, below, last⟩ := h
  exact ⟨c :: new, low, rfl, rfl, by simpa using ⟨deep, above⟩, below, last⟩

theorem list_push (h : listBlocks k edge l l') {c : Int} (deep : edge < c) :
    listBlocks k edge (c :: l) (c :: l') := by
  obtain ⟨new, rfl, rfl, above, wide⟩ := h
  exact ⟨c :: new, rfl, rfl, by simpa using ⟨deep, above⟩, wide⟩

/-- No block is less deep when the text is indented. -/
theorem lawful (wide : 0 < k) : (phase.pairing k).Lawful where
  wide := wide
  deeper h := by
    cases phase with
    | first => grind [first_cons h, shifted]
    | deeper edge => grind [deeper_cons h, shifted]
    | list edge front begins => exact .inl (list_cons h).1
    | behind record =>
      obtain ⟨here, here'⟩ := h
      exact .inl ((List.cons.inj here').1.trans (List.cons.inj here).1.symm)

/-- Without a list in the column of its record all blocks are closed together. -/
theorem closes_end (apart : ∀ edge front begins, phase ≠ list edge front begins) :
    (phase.pairing k).Closes (-1) (-1) := by
  cases phase with
  | first => exact ⟨fun h => by grind [first_cons h, shifted], fun h _ => by grind [first_cons h]⟩
  | deeper edge =>
    exact ⟨fun h => by grind [deeper_cons h, shifted], fun h _ => by grind [deeper_cons h]⟩
  | list edge front begins => exact absurd rfl (apart edge front begins)
  | behind record =>
    refine ⟨fun h => ?_, fun h deep => ?_⟩
    all_goals
      obtain ⟨here, here'⟩ := h
      obtain ⟨rfl, rfl⟩ := List.cons.inj here
      obtain ⟨rfl, rfl⟩ := List.cons.inj here'
    · rfl
    · cases deep

/-- On the first line all columns are shifted. -/
theorem fits_first (line : m.line = 0) : (first.pairing k).Fits m := by
  have column : (m.indent k).column = m.column + k := if_pos line
  refine ⟨⟨fun h => ?_, fun h deep => ?_⟩, fun h => ?_, fun h deep => ?_⟩
  · grind [first_cons h, shifted]
  · have := first_push h (c := m.column) (by omega)
    rwa [← Int.natCast_add, ← column] at this
  · grind [first_cons h, shifted]
  · grind [first_cons h]

/-- On a later line no column is shifted. -/
theorem closes_deeper (line : 0 < m.line) (deep : edge ≤ m.column) :
    ((deeper edge).pairing k).Closes (m.indent k).column m.column := by
  have column : (m.indent k).column = m.column := if_neg (by omega)
  exact ⟨fun h => by grind [deeper_cons h, shifted], fun h deep => by grind [deeper_cons h]⟩

theorem fits_deeper (line : 0 < m.line) (deep : edge < m.column) :
    ((deeper edge).pairing k).Fits m := by
  have column : (m.indent k).column = m.column := if_neg (by omega)
  refine ⟨⟨fun h => ?_, fun h _ => ?_⟩, closes_deeper line (Int.le_of_lt deep)⟩
  · grind [deeper_cons h, shifted]
  · have := deeper_push h deep
    rwa [← column] at this ⊢

/-- Blocks inside of a list are closed together, down to the block of the list. -/
theorem closes_list {column : Int} (deep : edge ≤ column) :
    ((list edge front begins).pairing k).Closes column column := by
  refine ⟨fun h => by rw [(list_cons h).1], fun h deep => ?_⟩
  obtain ⟨same, -, here | ⟨-, more, more', around⟩⟩ := list_cons h
  · omega
  · exact ⟨more, more', around⟩

/-- In the column of a list, too, no column is shifted. -/
theorem fits_list (line : 0 < m.line) (deep : edge ≤ m.column) :
    ((list edge front begins).pairing k).Fits m := by
  have column : (m.indent k).column = m.column := if_neg (by omega)
  refine ⟨⟨fun h => ?_, fun h less => ?_⟩, ?_⟩
  · grind [list_cons h]
  · have deep : edge < m.column := by grind [list_cons h]
    have := list_push h deep
    rwa [← column] at this ⊢
  · rw [pairing_width, column]
    exact closes_list deep

/-! ## From the first line to the next ones -/

/-- No open block lies to the right of the edge. -/
theorem le_edge (mem : i ∈ s.indent :: s.outer) : i ≤ s.edge := by
  rw [Scanner.edge]
  generalize s.outer = l at mem ⊢
  induction l with
  | nil => exact Int.le_of_eq (List.mem_singleton.mp mem)
  | cons j l ih => grind

/-- The blocks of the first line are the ones that later lines have to be indented deeper than. -/
theorem deepen (h : (first.pairing k).Along t s) : ((deeper t.edge).pairing k).Along t s := by
  obtain ⟨same, last⟩ : t.indent :: t.outer = (s.indent :: s.outer).map (shifted k) ∧ _ :=
    h.blocks
  have below : ∀ i ∈ s.indent :: s.outer, shifted k i ≤ t.edge := fun i mem =>
    le_edge (same ▸ List.mem_map_of_mem mem)
  exact { h with
    blocks := ⟨[], s.indent :: s.outer, same, rfl, by simp, below, last⟩
    keys := ⟨h.keys.position, fun k mem => .inl (h.keys.outermost k mem)⟩ }

/-- The column of a block in the text that is not indented. -/
theorem lowered_eq (h : phase.blocks k (i :: l) (i' :: l')) : phase.lowered k i = i' := by
  cases phase with
  | first => grind [first_cons h, shifted, lowered]
  | deeper edge => grind [deeper_cons h, shifted, lowered]
  | list edge front begins => exact (list_cons h).1.symm
  | behind record =>
    obtain ⟨here, here'⟩ := h
    exact (List.cons.inj here).1.trans (List.cons.inj here').1.symm

end Phase

end RoomAudio.Yaml
