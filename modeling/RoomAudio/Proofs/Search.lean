import Mathlib.Data.Int.ConditionallyCompleteOrder
import Mathlib.Order.ConditionallyCompleteLattice.Basic
import RoomAudio.Search

/-!
# The best candidate

What the search for a name promises about the candidate that it picks. Candidates have a rank: just
the wanted name comes before all scores, and a name that the query does not fit behind them. The
one that is picked stands where the ranks first reach their maximum.

## Main definitions

* `Search.LeftmostMaximum` — where a list first reaches its maximum.
* `Search.rank` — what decides between candidates.
* `Search.best?_eq_some_iff` — the choice is the leftmost maximum of the ranks.
* `Search.Prevails` — the same, told by exact names and scores.
* `Search.best?_mem`, `Search.best?_eq_none_iff` — there is a choice unless there are no candidates.
* `Search.best?_prevails` — which candidate is picked, and when it stays the same.
-/

namespace RoomAudio

namespace Search

/-! ## The leftmost maximum -/

section Maximum

variable {α β : Type} [LinearOrder β] {rank : α → β} {l l' : List α} {a b c : α}

/-- The element `a` is larger than all those in front of it and not smaller than those behind. -/
def LeftmostMaximum (rank : α → β) (l : List α) (a : α) : Prop :=
  ∃ before after, l = before ++ a :: after ∧ (∀ b ∈ before, rank b < rank a) ∧
    ∀ b ∈ after, rank b ≤ rank a

namespace LeftmostMaximum

theorem mem (h : LeftmostMaximum rank l a) : a ∈ l := by
  obtain ⟨before, after, rfl, -, -⟩ := h
  simp

theorem le (h : LeftmostMaximum rank l a) (mem : b ∈ l) : rank b ≤ rank a := by
  obtain ⟨before, after, rfl, less, le⟩ := h
  rcases List.mem_append.mp mem with first | rest
  · exact (less b first).le
  · rcases List.mem_cons.mp rest with rfl | later
    · exact le_rfl
    · exact le b later

/-- There is one leftmost maximum. -/
theorem unique (h : LeftmostMaximum rank l a) (h' : LeftmostMaximum rank l b) : a = b := by
  have same : rank a = rank b := le_antisymm (h'.le h.mem) (h.le h'.mem)
  obtain ⟨before, after, rfl, less, -⟩ := h
  obtain ⟨before', after', eq, less', -⟩ := h'
  -- Neither can stand in front of the other, where all elements are smaller.
  rcases List.append_eq_append_iff.mp eq with ⟨more, rfl, split⟩ | ⟨more, rfl, split⟩ <;>
    cases more <;> grind

/-- What stands where it first occurs is compared with the elements on both sides. -/
theorem append_cons_iff {before after : List α} (new : a ∉ before) :
    LeftmostMaximum rank (before ++ a :: after) a ↔
      (∀ b ∈ before, rank b < rank a) ∧ ∀ b ∈ after, rank b ≤ rank a := by
  refine ⟨fun h => ?_, fun ⟨less, le⟩ => ⟨before, after, rfl, less, le⟩⟩
  obtain ⟨before', after', eq, less, le⟩ := h
  obtain ⟨rfl, rfl⟩ : before = before' ∧ after = after' := by
    rcases List.append_eq_append_iff.mp eq with ⟨more, rfl, split⟩ | ⟨more, rfl, split⟩ <;>
      cases more <;> grind
  exact ⟨less, le⟩

/-- A smaller element in front makes no difference. -/
theorem cons (h : LeftmostMaximum rank l a) (less : rank b < rank a) :
    LeftmostMaximum rank (b :: l) a := by
  obtain ⟨before, after, rfl, all, le⟩ := h
  exact ⟨b :: before, after, rfl, List.forall_mem_cons.mpr ⟨less, all⟩, le⟩

/-- Neither does an element behind one that is not smaller. -/
theorem insert (h : LeftmostMaximum rank (l ++ l') a) (mem : b ∈ l) (le : rank c ≤ rank b) :
    LeftmostMaximum rank (l ++ c :: l') a := by
  obtain ⟨before, after, eq, all, rest⟩ := h
  rcases List.append_eq_append_iff.mp eq with ⟨more, rfl, rfl⟩ | ⟨more, rfl, split⟩
  · refine ⟨l ++ c :: more, after, by simp, ?_, rest⟩
    have := all b (by simp [mem])
    grind
  · cases more with
    | nil =>
      have := all b (by simpa using mem)
      exact ⟨before ++ [c], after, by simp_all, by grind, rest⟩
    | cons d more =>
      obtain ⟨rfl, rfl⟩ := List.cons.inj split
      refine ⟨before, more ++ c :: l', by simp, all, ?_⟩
      grind

end LeftmostMaximum

end Maximum

variable {α : Type} {label : α → String} {candidates : List α} {query : String} {a b : α}

/-! ## Scores -/

/-- How well a query fits a candidate, which is less than every score if it does not fit. -/
def fit (label : α → String) (query : String) (a : α) : WithBot Int :=
  (score (label a) query).elim ⊥ fun n => (n : WithBot Int)

@[simp] theorem fit_of_some {n : Int} (h : score (label a) query = some n) :
    fit label query a = (n : WithBot Int) := by
  rw [fit, h, Option.elim_some]

@[simp] theorem fit_of_none (h : score (label a) query = none) : fit label query a = ⊥ := by
  rw [fit, h, Option.elim_none]

def scored (label : α → String) (candidates : List α) (query : String) : List (α × Int) :=
  candidates.filterMap fun a => (score (label a) query).map fun n => (a, n)

/-- One candidate after the other is compared with the best one so far. -/
theorem foldl_better_scored {n : Int} (candidates : List α)
    (first : score (label a) query = some n) :
    ∃ x, (scored label candidates query).foldl better (some (a, n)) = some x ∧
      LeftmostMaximum (fit label query) (a :: candidates) x.1 := by
  induction candidates generalizing a n with
  | nil => exact ⟨(a, n), rfl, [], [], rfl, by simp, by simp⟩
  | cons c candidates ih =>
    cases next : score (label c) query with
    | none =>
      obtain ⟨x, last, best⟩ := ih first
      refine ⟨x, ?_, best.insert (l := [a]) (List.mem_singleton_self a) (by simp [next])⟩
      simpa only [scored, List.filterMap_cons, next, Option.map_none] using last
    | some k =>
      simp only [scored, List.filterMap_cons, next, Option.map_some, List.foldl_cons, better]
      split
      · rename_i less
        obtain ⟨x, last, best⟩ := ih next
        have up : fit label query a < fit label query c := by simpa [first, next] using less
        exact ⟨x, last, best.cons (up.trans_le (best.le List.mem_cons_self))⟩
      · rename_i le
        obtain ⟨x, last, best⟩ := ih first
        have down : fit label query c ≤ fit label query a := by simpa [first, next] using le
        exact ⟨x, last, best.insert (l := [a]) (List.mem_singleton_self a) down⟩

/-- A candidate that does not fit is passed over. -/
theorem highest?_cons_of_none (h : score (label a) query = none) :
    highest? label (a :: candidates) query = highest? label candidates query := by
  simp [highest?, h]

theorem highest?_cons_of_some {n : Int} (candidates : List α)
    (h : score (label a) query = some n) :
    ∃ b, highest? label (a :: candidates) query = some b ∧
      LeftmostMaximum (fit label query) (a :: candidates) b := by
  obtain ⟨x, last, best⟩ := foldl_better_scored candidates h
  refine ⟨x.1, ?_, best⟩
  simp only [highest?, List.filterMap_cons, h, Option.map_some, List.foldl_cons]
  exact congrArg (Option.map Prod.fst) last

/-- The candidate with the highest score is the first of several, and it is missing only if none
fits. -/
theorem highest?_cases (label : α → String) (candidates : List α) (query : String) :
    (highest? label candidates query = none ∧ ∀ a ∈ candidates, fit label query a = ⊥) ∨
      ∃ a, highest? label candidates query = some a ∧ ⊥ < fit label query a ∧
        LeftmostMaximum (fit label query) candidates a := by
  induction candidates with
  | nil => exact .inl ⟨rfl, by simp⟩
  | cons c candidates ih =>
    cases first : score (label c) query with
    | none =>
      rw [highest?_cons_of_none first]
      rcases ih with ⟨nothing, unfit⟩ | ⟨a, found, fits, best⟩
      · exact .inl ⟨nothing, List.forall_mem_cons.mpr ⟨fit_of_none first, unfit⟩⟩
      · exact .inr ⟨a, found, fits, best.cons (by rwa [fit_of_none first])⟩
    | some n =>
      obtain ⟨a, found, best⟩ := highest?_cons_of_some candidates first
      refine .inr ⟨a, found, lt_of_lt_of_le ?_ (best.le List.mem_cons_self), best⟩
      rw [fit_of_some first]
      exact WithBot.bot_lt_coe n

/-! ## The choice -/

/-- The candidate has just the wanted name, up to the case of ASCII letters. -/
def IsExact (label : α → String) (query : String) (a : α) : Prop :=
  Text.sameUpToAsciiCase (Text.trim (label a)) (Text.trim query) = true

instance : DecidablePred (IsExact label query) := fun _ => inferInstanceAs (Decidable (_ = true))

/-- What decides between candidates: just the wanted name comes before all scores. -/
def rank (label : α → String) (query : String) (a : α) : WithTop (WithBot Int) :=
  if IsExact label query a then ⊤ else (fit label (Text.trim query) a : WithBot Int)

/-- Just the wanted name is above all scores. -/
theorem rank_of_exact (h : IsExact label query a) : rank label query a = ⊤ := if_pos h

theorem rank_of_not_exact (h : ¬ IsExact label query a) :
    rank label query a = (fit label (Text.trim query) a : WithBot Int) := if_neg h

theorem rank_lt_top_iff : rank label query a < ⊤ ↔ ¬ IsExact label query a := by
  by_cases h : IsExact label query a
  · simp [rank_of_exact h, h]
  · simp [rank_of_not_exact h, h, WithTop.coe_lt_top]

/-- What does not outrank an inexact name is no exact one. -/
theorem not_exact_of_rank_le (inexact : ¬ IsExact label query a)
    (le : rank label query b ≤ rank label query a) : ¬ IsExact label query b :=
  rank_lt_top_iff.mp (le.trans_lt (rank_lt_top_iff.mpr inexact))

section Inexact

variable (first : ¬ IsExact label query a) (second : ¬ IsExact label query b)

include first second

theorem rank_lt_iff : rank label query a < rank label query b ↔
    fit label (Text.trim query) a < fit label (Text.trim query) b := by
  rw [rank_of_not_exact first, rank_of_not_exact second, WithTop.coe_lt_coe]

theorem rank_le_iff : rank label query a ≤ rank label query b ↔
    fit label (Text.trim query) a ≤ fit label (Text.trim query) b := by
  rw [rank_of_not_exact first, rank_of_not_exact second, WithTop.coe_le_coe]

end Inexact

/-- As long as no name is exact, scores decide. -/
theorem LeftmostMaximum.rank_of_fit (inexact : ∀ b ∈ candidates, ¬ IsExact label query b)
    (h : LeftmostMaximum (fit label (Text.trim query)) candidates a) :
    LeftmostMaximum (rank label query) candidates a := by
  have own := inexact a h.mem
  obtain ⟨before, after, rfl, less, le⟩ := h
  refine ⟨before, after, rfl, fun b mem => ?_, fun b mem => ?_⟩
  · exact (rank_lt_iff (inexact b (by simp [mem])) own).mpr (less b mem)
  · exact (rank_le_iff (inexact b (by simp [mem])) own).mpr (le b mem)

/-- When no candidate fits, the first one is taken. -/
theorem LeftmostMaximum.head_of_unfit {after : List α}
    (inexact : ∀ b ∈ a :: after, ¬ IsExact label query b)
    (unfit : ∀ b ∈ a :: after, fit label (Text.trim query) b = ⊥) :
    LeftmostMaximum (rank label query) (a :: after) a := by
  refine LeftmostMaximum.rank_of_fit inexact ⟨[], after, rfl, by simp, fun b mem => ?_⟩
  rw [unfit b (List.mem_cons_of_mem a mem)]
  exact bot_le

/-- The first candidate with just the wanted name is taken. -/
theorem LeftmostMaximum.of_find?
    (h : candidates.find? (fun a => Text.sameUpToAsciiCase (Text.trim (label a))
      (Text.trim query)) = some a) : LeftmostMaximum (rank label query) candidates a := by
  obtain ⟨exact, before, after, rfl, inexact⟩ := List.find?_eq_some_iff_append.mp h
  have top : rank label query a = ⊤ := rank_of_exact exact
  refine ⟨before, after, rfl, fun b mem => ?_, fun b _ => ?_⟩
  · rw [top, rank_lt_top_iff]
    simpa [IsExact] using inexact b mem
  · rw [top]
    exact le_top

/-- The three ways to a choice, of which the first one that there is is taken. -/
theorem best?_eq (label : α → String) (candidates : List α) (query : String) :
    best? label candidates query =
      (candidates.find? fun a => Text.sameUpToAsciiCase (Text.trim (label a))
        (Text.trim query)).or
        ((highest? label candidates (Text.trim query)).or candidates.head?) := by
  rw [best?]
  split
  · rename_i exact
    rw [exact, Option.some_or]
  · rename_i inexact
    rw [inexact, Option.none_or]
    split <;> simp [*]

/-- A candidate is taken from every list but the empty one, and it is the leftmost of the highest
rank. -/
theorem best?_cases (label : α → String) (candidates : List α) (query : String) :
    (best? label candidates query = none ∧ candidates = []) ∨
      ∃ a, best? label candidates query = some a ∧
        LeftmostMaximum (rank label query) candidates a := by
  rw [best?_eq]
  cases exact : candidates.find? fun a => Text.sameUpToAsciiCase (Text.trim (label a))
      (Text.trim query) with
  | some a => exact .inr ⟨a, Option.some_or, .of_find? exact⟩
  | none =>
    have inexact : ∀ b ∈ candidates, ¬ IsExact label query b := List.find?_eq_none.mp exact
    rw [Option.none_or]
    rcases highest?_cases label candidates (Text.trim query) with
      ⟨nothing, unfit⟩ | ⟨a, found, -, best⟩
    · rw [nothing, Option.none_or]
      cases candidates with
      | nil => exact .inl ⟨rfl, rfl⟩
      | cons a after => exact .inr ⟨a, rfl, .head_of_unfit inexact unfit⟩
    · exact .inr ⟨a, by rw [found, Option.some_or], best.rank_of_fit inexact⟩

theorem best?_eq_none_iff : best? label candidates query = none ↔ candidates = [] := by
  rcases best?_cases label candidates query with ⟨nothing, empty⟩ | ⟨a, found, best⟩
  · exact iff_of_true nothing empty
  · simp [found, List.ne_nil_of_mem best.mem]

/-- The choice is the leftmost maximum. -/
theorem best?_eq_some_iff :
    best? label candidates query = some a ↔ LeftmostMaximum (rank label query) candidates a := by
  rcases best?_cases label candidates query with ⟨nothing, rfl⟩ | ⟨b, found, best⟩
  · rw [nothing]
    exact ⟨nofun, fun h => absurd h.mem List.not_mem_nil⟩
  · rw [found, Option.some.injEq]
    constructor
    · rintro rfl
      exact best
    · intro h
      exact best.unique h

/-- Only a candidate is taken. -/
theorem best?_mem (h : best? label candidates query = some a) : a ∈ candidates :=
  (best?_eq_some_iff.mp h).mem

/-! ## What the choice means -/

/-- Why a candidate is picked that stands between others: it is the first one with just the wanted
name, or there is none like that and its score is higher than those in front and not lower than
those behind, or there are no scores either and it is the first one of all. -/
inductive Prevails (label : α → String) (query : String) (before : List α) (a : α)
    (after : List α) : Prop
  | exact (exact : IsExact label query a) (first : ∀ b ∈ before, ¬ IsExact label query b)
  | highest {n : Int} (inexact : ∀ b ∈ before ++ a :: after, ¬ IsExact label query b)
      (scored : score (label a) (Text.trim query) = some n)
      (less : ∀ b ∈ before, ∀ m ∈ score (label b) (Text.trim query), m < n)
      (le : ∀ b ∈ after, ∀ m ∈ score (label b) (Text.trim query), m ≤ n)
  | first (inexact : ∀ b ∈ before ++ a :: after, ¬ IsExact label query b)
      (unfit : ∀ b ∈ before ++ a :: after, score (label b) (Text.trim query) = none)
      (first : before = [])

theorem fit_lt_coe_iff {n : Int} :
    fit label query a < (n : WithBot Int) ↔ ∀ m ∈ score (label a) query, m < n := by
  cases h : score (label a) query <;> simp [h, WithBot.bot_lt_coe]

theorem fit_le_coe_iff {n : Int} :
    fit label query a ≤ (n : WithBot Int) ↔ ∀ m ∈ score (label a) query, m ≤ n := by
  cases h : score (label a) query <;> simp [h]

theorem fit_le_fit (h : ∀ m ∈ score (label a) query, ∃ n ∈ score (label b) query, m ≤ n) :
    fit label query a ≤ fit label query b := by
  cases scored : score (label a) query with
  | none => simp [scored]
  | some m =>
    obtain ⟨n, scored', le⟩ := h m scored
    rw [fit_of_some scored, fit_of_some scored']
    exact WithBot.coe_le_coe.mpr le

theorem fit_eq_bot_iff : fit label query a = ⊥ ↔ score (label a) query = none := by
  cases h : score (label a) query <;> simp [h]

section Sides

variable {before after : List α}

theorem Prevails.outranks (h : Prevails label query before a after) :
    (∀ b ∈ before, rank label query b < rank label query a) ∧
      ∀ b ∈ after, rank label query b ≤ rank label query a := by
  cases h with
  | exact exact first =>
    rw [rank_of_exact exact]
    exact ⟨fun b mem => rank_lt_top_iff.mpr (first b mem), fun b _ => le_top⟩
  | highest inexact scored less le =>
    have own := inexact a (by simp)
    refine ⟨fun b mem => ?_, fun b mem => ?_⟩
    · rw [rank_lt_iff (inexact b (by simp [mem])) own, fit_of_some scored, fit_lt_coe_iff]
      exact less b mem
    · rw [rank_le_iff (inexact b (by simp [mem])) own, fit_of_some scored, fit_le_coe_iff]
      exact le b mem
  | first inexact unfit first =>
    subst first
    refine ⟨by simp, fun b mem => ?_⟩
    rw [rank_le_iff (inexact b (by simp [mem])) (inexact a (by simp)),
      fit_of_none (unfit b (by simp [mem]))]
    exact bot_le

/-- Without an exact name it is the scores that have been compared. -/
theorem prevails_of_fit (inexact : ∀ b ∈ before ++ a :: after, ¬ IsExact label query b)
    (less : ∀ b ∈ before, fit label (Text.trim query) b < fit label (Text.trim query) a)
    (le : ∀ b ∈ after, fit label (Text.trim query) b ≤ fit label (Text.trim query) a) :
    Prevails label query before a after := by
  cases own : score (label a) (Text.trim query) with
  | some n =>
    rw [fit_of_some own] at less le
    exact .highest inexact own (fun b mem => fit_lt_coe_iff.mp (less b mem))
      fun b mem => fit_le_coe_iff.mp (le b mem)
  | none =>
    rw [fit_of_none own] at less le
    have first : before = [] :=
      List.eq_nil_iff_forall_not_mem.mpr fun b mem => not_lt_bot (less b mem)
    subst first
    refine .first inexact (fun b mem => ?_) rfl
    rcases List.mem_cons.mp mem with rfl | later
    · exact own
    · exact fit_eq_bot_iff.mp (le_bot_iff.mp (le b later))

theorem prevails_of_rank (less : ∀ b ∈ before, rank label query b < rank label query a)
    (le : ∀ b ∈ after, rank label query b ≤ rank label query a) :
    Prevails label query before a after := by
  by_cases exact : IsExact label query a
  · refine .exact exact fun b mem => rank_lt_top_iff.mp ?_
    rw [← rank_of_exact exact]
    exact less b mem
  · have front (b : α) (mem : b ∈ before) := not_exact_of_rank_le exact (less b mem).le
    have back (b : α) (mem : b ∈ after) := not_exact_of_rank_le exact (le b mem)
    exact prevails_of_fit (by grind)
      (fun b mem => (rank_lt_iff (front b mem) exact).mp (less b mem))
      fun b mem => (rank_le_iff (back b mem) exact).mp (le b mem)

/-- A candidate prevails exactly if its rank is the leftmost maximum. -/
theorem prevails_iff :
    Prevails label query before a after ↔
      (∀ b ∈ before, rank label query b < rank label query a) ∧
        ∀ b ∈ after, rank label query b ≤ rank label query a :=
  ⟨Prevails.outranks, fun ⟨less, le⟩ => prevails_of_rank less le⟩

end Sides

/-- There is a choice unless there are no candidates, it prevails over the others, and it stays the
same when another candidate is put somewhere behind it that is not exact and has no score, or
none that is higher. -/
theorem best?_prevails (label : α → String) (candidates : List α) (query : String) :
    (best? label candidates query = none ↔ candidates = []) ∧
    (∀ a, best? label candidates query = some a ↔
      ∃ before after, candidates = before ++ a :: after ∧ Prevails label query before a after) ∧
    ∀ a before between rest, candidates = before ++ a :: (between ++ rest) →
      best? label candidates query = some a →
      ∀ b, ¬ IsExact label query b →
        (∀ m ∈ score (label b) (Text.trim query),
          ∃ n ∈ score (label a) (Text.trim query), m ≤ n) →
        best? label (before ++ a :: (between ++ b :: rest)) query = some a := by
  refine ⟨best?_eq_none_iff, fun a => ?_, ?_⟩
  · simp only [best?_eq_some_iff, LeftmostMaximum, prevails_iff]
  · rintro a before between rest rfl best b inexact lower
    have le : rank label query b ≤ rank label query a := by
      by_cases exact : IsExact label query a
      · rw [rank_of_exact exact]
        exact le_top
      · exact (rank_le_iff inexact exact).mpr (fit_le_fit lower)
    have split : before ++ a :: (between ++ b :: rest) = (before ++ a :: between) ++ b :: rest := by
      simp
    rw [split]
    refine best?_eq_some_iff.mpr (LeftmostMaximum.insert ?_ (b := a) (by simp) le)
    rw [best?_eq_some_iff] at best
    simpa using best

end Search

end RoomAudio
