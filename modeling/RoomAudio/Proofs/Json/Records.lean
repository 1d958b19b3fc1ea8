import RoomAudio.Proofs.Format
import RoomAudio.Proofs.Json.RoundTrip
import RoomAudio.Table

/-!
# Reading back records

Plain data is read back from its trees, and a table with the same entries in the same order.

## Main definitions

* `Json.readsBack` — reading single values, lists and records.
* `Table.read_toData` — reading a table.
-/

namespace RoomAudio

open Json

namespace Json

/-- Plain data is read back from its trees. -/
theorem readsBack : format.ReadsBack Tree.ofData where
  text _ := rfl
  int i small := by
    change Tree.int? (.number (.ofInt i)) = .ok i
    rw [Tree.int?, Number.int?_ofInt small]
  bool _ := rfl
  optional d some := by
    cases d with
    | null => exact absurd rfl some
    | _ => rfl
  items items := congrArg Except.ok (Tree.ofItems_eq_map items)
  members names fields := by
    change Tree.entries? (.record (Tree.ofFields fields)) = _
    rw [Tree.ofFields_eq_map, Tree.entries?, List.map_map]
    rfl
  textOrOther _ := rfl

end Json

namespace Table

variable {α : Type}

theorem eq_of_entries {t t' : Table α} (h : t.entries = t'.entries) : t = t' := by
  cases t
  cases t'
  cases h
  rfl

/-- A new name comes last. -/
theorem entries_insert_new {t : Table α} {name : String} (a : α)
    (new : name ∉ t.entries.map Prod.fst) :
    (t.insert name a).entries = t.entries ++ [(name, a)] := by
  rw [insert, dif_neg new]

/-- Entries with new names are appended one after the other. -/
theorem foldl_insert_new (l : List (String × α)) (t : Table α)
    (names : ((t.entries ++ l).map Prod.fst).Nodup) :
    (l.foldl (fun t e => t.insert e.1 e.2) t).entries = t.entries ++ l := by
  induction l generalizing t with
  | nil => simp
  | cons e l ih =>
    have new : e.1 ∉ t.entries.map Prod.fst := by
      rw [List.map_append, List.nodup_append] at names
      intro mem
      exact names.2.2 e.1 mem e.1 (by simp) rfl
    have entries := entries_insert_new e.2 new
    rw [List.foldl_cons, ih, entries, List.append_assoc]
    · rfl
    · rw [entries, List.append_assoc]
      exact names

/-- A table is read with its entries in their order. -/
theorem read_toData {write : α → Data} {value : Tree → Except Fault α}
    (h : ∀ a, value (Tree.ofData (write a)) = .ok a) (t : Table α) :
    Table.read Json.format value (Tree.ofData (t.toData write)) = .ok t := by
  have entries : Json.format.entries (Tree.ofData (t.toData write)) =
      .ok (t.entries.map fun e => (Tree.text (some e.1), Tree.ofData (write e.2))) := by
    change Tree.entries? (.record (Tree.ofFields (t.entries.map _))) = _
    rw [Tree.ofFields_eq_map, Tree.entries?, List.map_map, List.map_map]
    rfl
  have step (t : Table α) (e : String × α) : (do
      return t.insert (← Json.format.text (Tree.text (some e.1)))
        (← value (Tree.ofData (write e.2))) : Except Fault (Table α)) = pure (t.insert e.1 e.2) := by
    rw [h]
    rfl
  rw [Table.read, entries]
  change List.foldlM _ empty (t.entries.map _) = _
  rw [List.foldlM_map]
  simp only [step, List.foldlM_pure]
  refine congrArg Except.ok (eq_of_entries ?_)
  exact foldl_insert_new t.entries empty t.nodup

end Table

end RoomAudio
