import RoomAudio.Data
import RoomAudio.Format
import RoomAudio.Text.Case

/-!
# Tables

Tables from names to values that keep the order in which their names were entered first.

## Main definitions

* `Table` — a list of entries with different names.
* `Table.insert` — enters a value; a name that is there keeps its place.
* `Table.get?`, `Table.find?` — the value of a name, exactly or up to the case of ASCII letters.
* `Table.read`, `Table.toData` — tables as records.
-/

namespace RoomAudio

/-- A table whose names are all different. -/
structure Table (α : Type) where
  entries : List (String × α)
  nodup : (entries.map Prod.fst).Nodup
  deriving DecidableEq, Repr

namespace Table

variable {α : Type}

def empty : Table α := ⟨[], List.nodup_nil⟩

instance : Inhabited (Table α) := ⟨empty⟩

def isEmpty (t : Table α) : Bool := t.entries.isEmpty

def get? (t : Table α) (name : String) : Option α := t.entries.lookup name

/-- The value of this name, or else of the first one that differs from it in the case of ASCII
letters only. -/
def find? (t : Table α) (name : String) : Option α :=
  match t.get? name with
  | some a => some a
  | none => (t.entries.find? fun e => Text.sameUpToAsciiCase e.1 name).map Prod.snd

def replace (name : String) (a : α) (entries : List (String × α)) : List (String × α) :=
  entries.map fun e => if e.1 = name then (e.1, a) else e

theorem map_fst_replace (name : String) (a : α) (entries : List (String × α)) :
    (replace name a entries).map Prod.fst = entries.map Prod.fst := by
  simp only [replace, List.map_map]
  refine List.map_congr_left fun e _ => ?_
  simp only [Function.comp_apply]
  split <;> rfl

theorem nodup_append_new {name : String} (a : α) {entries : List (String × α)}
    (h : (entries.map Prod.fst).Nodup) (new : name ∉ entries.map Prod.fst) :
    ((entries ++ [(name, a)]).map Prod.fst).Nodup := by
  rw [List.map_append, List.nodup_append]
  refine ⟨h, by simp, ?_⟩
  simp only [List.map_cons, List.map_nil, List.mem_singleton]
  rintro b hb _ rfl rfl
  exact new hb

/-- Enters a value. A name that is there keeps its place, a new one is the last. -/
def insert (t : Table α) (name : String) (a : α) : Table α :=
  if h : name ∈ t.entries.map Prod.fst then
    ⟨replace name a t.entries, by rw [map_fst_replace]; exact t.nodup⟩
  else ⟨t.entries ++ [(name, a)], nodup_append_new a t.nodup h⟩

/-- The table of entries that are entered one after the other. -/
def ofList (entries : List (String × α)) : Table α :=
  entries.foldl (fun t e => t.insert e.1 e.2) empty

def toData (write : α → Data) (t : Table α) : Data :=
  .record (t.entries.map fun e => (e.1, write e.2))

def read {ν : Type} {m : Type → Type} [Monad m] [MonadExceptOf Fault m] (F : Format ν m)
    (value : ν → m α) (node : ν) : m (Table α) := do
  let entries ← F.entries node
  entries.foldlM (fun t e => do return t.insert (← F.text e.1) (← value e.2)) empty

end Table

end RoomAudio
