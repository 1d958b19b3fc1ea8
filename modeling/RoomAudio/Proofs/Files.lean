import RoomAudio.Files
import RoomAudio.Proofs.Refusal

/-!
# Reading what was written

A file that was written holds what was written. Writing changes one place only, and this place is
none of the directories on the way to it, so the same path still leads there. When it is written
again, its directories are there already and nothing is left of what it held before.

## Main definitions

* `Files.standing_of_ne` — what stands at other places stays.
* `Files.read_write`, `Files.read_save` — reading a file that was written.
* `Files.save_save` — of two writings only the last one counts.
-/

namespace RoomAudio.Files

variable {f g : Files} {place : Place} {entry : Entry}

theorem lookup_filter_of_ne {other : Place} (ne : other ≠ place) (l : List (Place × Entry)) :
    (l.filter (·.1 ≠ place)).lookup other = l.lookup other := by
  induction l with
  | nil => rfl
  | cons e l ih =>
    obtain ⟨here, entry⟩ := e
    by_cases same : here = place
    · subst same
      have skip : (other == here) = false := by simp [ne]
      rw [List.filter_cons_of_neg (by simp), ih, List.lookup_cons, skip]
    · rw [List.filter_cons_of_pos (by simp [same]), List.lookup_cons, List.lookup_cons, ih]

/-- What was put at a place stands there. -/
theorem standing_self (above : place ≠ []) : entry? (f.put place entry) place = some entry := by
  simp [ entry?, put, above]

/-- Other places keep what stands there. -/
theorem standing_of_ne {other : Place} (ne : other ≠ place) :
    entry? (f.put place entry) other = f.entry? other := by
  have skip : (other == place) = false := by simp [ne]
  unfold entry? put
  rw [List.lookup_cons, skip, lookup_filter_of_ne ne]

/-- Ways through a tree do not change when a file is put somewhere. -/
theorem step_put {start next : Place} {part : String} (h : f.step start part = .ok next)
    (leaf : f.isDirectory place = false) : (f.put place entry).step start part = .ok next := by
  have directory : f.entry? start = some .directory := by
    unfold step at h
    split at h
    · cases h
    · cases h
    · rename_i directory
      exact directory
  have ne : start ≠ place := by
    rintro rfl
    rw [isDirectory, directory] at leaf
    cases leaf
  unfold step at h ⊢
  rw [standing_of_ne ne]
  exact h

/-- A path that led to a place still leads there, whatever is put there in place of a file or of
nothing. -/
theorem walk_put {start next : Place} {parts : List String} (h : f.walk start parts = .ok next)
    (leaf : f.isDirectory place = false) : (f.put place entry).walk start parts = .ok next := by
  induction parts generalizing start with
  | nil => exact h
  | cons part parts ih =>
    unfold walk at h ih ⊢
    rw [List.foldlM_cons] at h ⊢
    cases first : f.step start part with
    | error fault =>
      rw [first] at h
      cases h
    | ok middle =>
      rw [first] at h
      rw [step_put first leaf]
      exact ih h

/-- What a successful write tells: where the path leads, and that no directory stands there. -/
theorem write_eq_ok {path : String} {bytes : List UInt8} (h : f.write path bytes = .ok g) :
    path.isEmpty = false ∧ endsInSlash path = false ∧ ∃ place,
      f.walk (f.start path) (parts path) = .ok place ∧ f.isDirectory place = false ∧
      g = f.put place (.file bytes) := by
  unfold write at h
  rw [refuse_bind_ok_iff, except_bind_ok_iff] at h
  obtain ⟨filled, place, walked, h⟩ := h
  rw [refuse_bind_ok_iff, Bool.not_eq_true, Bool.or_eq_false_iff] at h
  obtain ⟨⟨slash, leaf⟩, written⟩ := h
  cases written
  exact ⟨by simpa using filled, slash, place, walked, leaf, rfl⟩

/-- A file that was written holds what was written. -/
theorem read_write {path : String} {bytes : List UInt8} (h : f.write path bytes = .ok g) :
    g.read path = .ok bytes := by
  obtain ⟨filled, slash, place, walked, leaf, rfl⟩ := write_eq_ok h
  have above : place ≠ [] := by
    rintro rfl
    cases leaf
  have located : (f.put place (.file bytes)).locate path = .ok place := by
    rw [locate, filled, slash]
    simp only [Bool.false_eq_true, if_false, List.append_nil]
    exact walk_put walked leaf
  simp only [read, located, bind, Except.bind, standing_self above]
  rfl

/-- A file that was saved is read back. -/
theorem read_save {path : String} {bytes : List UInt8} (h : f.save path bytes = (.ok (), g)) :
    g.read path = .ok bytes := by
  unfold save at h
  split at h
  · cases h
  · rename_i made _
    split at h
    · rename_i written
      cases h
      exact read_write written
    · cases h

/-! ## Writing again -/

/-- The later one of two writes to a place counts. -/
theorem put_put (first : Entry) : (f.put place first).put place entry = f.put place entry := by
  unfold put
  rw [List.filter_cons_of_neg (by simp), List.filter_filter]
  simp

theorem walk_append {start next : Place} {parts : List String} {part : String}
    (h : f.walk start parts = .ok next) : f.walk start (parts ++ [part]) = f.step next part := by
  unfold walk at h ⊢
  rw [List.foldlM_append, h]
  cases stepped : f.step next part <;> simp [bind, Except.bind, stepped, pure, Except.pure]

/-- Names lead to a directory if the way exists and ends at one. -/
theorem leadsToDirectory_iff {start : Place} {parts : List String} :
    f.leadsToDirectory start parts = true ↔
      ∃ next, f.walk start parts = .ok next ∧ f.isDirectory next = true := by
  unfold leadsToDirectory
  split <;> simp_all

/-- A directory stays one when something else is overwritten. -/
theorem leadsToDirectory_put {start : Place} {parts : List String}
    (h : f.leadsToDirectory start parts = true) (leaf : f.isDirectory place = false) :
    (f.put place entry).leadsToDirectory start parts = true := by
  obtain ⟨next, walked, directory⟩ := leadsToDirectory_iff.mp h
  have ne : next ≠ place := by
    rintro rfl
    rw [directory] at leaf
    cases leaf
  refine leadsToDirectory_iff.mpr ⟨next, walk_put walked leaf, ?_⟩
  rwa [isDirectory, standing_of_ne ne]

/-- A directory that was created stands where its path leads. -/
theorem createDirectory_eq_ok {start : Place} {part : String} {parents : List String}
    (h : f.createDirectory start (part :: parents) = .ok g) :
    g.current = f.current ∧ g.leadsToDirectory start (part :: parents).reverse = true := by
  unfold createDirectory at h
  rw [except_bind_ok_iff] at h
  obtain ⟨parent, walked, h⟩ := h
  rw [except_bind_ok_iff] at h
  obtain ⟨next, stepped, h⟩ := h
  rw [refuse_bind_ok_iff] at h
  obtain ⟨-, h⟩ := h
  split at h
  · cases h
  · rename_i free
    cases h
    have leaf : f.isDirectory next = false := by simp [isDirectory, free]
    have above : next ≠ [] := by
      rintro rfl
      cases free
    refine ⟨rfl, leadsToDirectory_iff.mpr ⟨next, ?_, by simp [isDirectory, standing_self above]⟩⟩
    rw [List.reverse_cons, walk_append (walk_put walked leaf)]
    exact step_put stepped leaf

/-- A fault is overlooked where a directory stands already, and then nothing changes. -/
theorem keepDirectory_eq_none {start : Place} {parts : List String} {fault : FileFault}
    (h : f.keepDirectory start parts fault = (none, g)) :
    g = f ∧ f.leadsToDirectory start parts = true := by
  unfold keepDirectory at h
  split at h
  · rename_i leads
    cases h
    exact ⟨rfl, leads⟩
  · cases h

/-- What was created is there, and the working directory is the same. -/
theorem createAll_eq_none {start : Place} {parts : List String}
    (h : f.createAll start parts = (none, g)) :
    g.current = f.current ∧ (parts ≠ [] → g.leadsToDirectory start parts.reverse = true) := by
  induction parts generalizing f g with
  | nil =>
    cases h
    exact ⟨rfl, by simp⟩
  | cons part parents ih =>
    rw [createAll] at h
    split at h
    · rename_i made
      cases h
      exact ⟨(createDirectory_eq_ok made).1, fun _ => (createDirectory_eq_ok made).2⟩
    · split at h
      · cases h
      · rename_i above
        obtain ⟨here, -⟩ := ih above
        split at h
        · rename_i made
          cases h
          obtain ⟨same, leads⟩ := createDirectory_eq_ok made
          exact ⟨same.trans here, fun _ => leads⟩
        · obtain ⟨rfl, leads⟩ := keepDirectory_eq_none h
          exact ⟨here, fun _ => leads⟩
    · obtain ⟨rfl, leads⟩ := keepDirectory_eq_none h
      exact ⟨rfl, fun _ => leads⟩

/-- Directories that are there are not created. -/
theorem createAll_of_leadsToDirectory {start : Place} {part : String} {parents : List String}
    (h : f.leadsToDirectory start (part :: parents).reverse = true) :
    f.createAll start (part :: parents) = (none, f) := by
  obtain ⟨next, walked, directory⟩ := leadsToDirectory_iff.mp h
  obtain ⟨parent, first, last⟩ : ∃ parent, f.walk start parents.reverse = .ok parent ∧
      f.step parent part = .ok next := by
    cases first : f.walk start parents.reverse with
    | ok parent =>
      rw [List.reverse_cons, walk_append first] at walked
      exact ⟨parent, rfl, walked⟩
    | error fault =>
      unfold walk at first walked
      rw [List.reverse_cons, List.foldlM_append, first] at walked
      cases walked
  have stands : f.entry? next = some .directory := by simpa [isDirectory] using directory
  have exists' : f.createDirectory start (part :: parents) = .error .exists := by
    simp only [createDirectory, first, last, stands, bind, Except.bind]
    split <;> rfl
  have kept (fault : FileFault) :
      f.keepDirectory start (part :: parents).reverse fault = (none, f) := by
    rw [keepDirectory, h, if_pos rfl]
  simp only [createAll, exists', kept]

/-- Creating directories once more changes nothing, also after a file was written. -/
theorem createDirectories_again {path : String} (h : f.createDirectories path = (none, g))
    (leaf : g.isDirectory place = false) :
    (g.put place entry).createDirectories path = (none, g.put place entry) := by
  unfold createDirectories at h ⊢
  obtain ⟨current, leads⟩ := createAll_eq_none h
  have start : (g.put place entry).start path = f.start path := by
    unfold Files.start
    rw [← current]
    rfl
  rw [start]
  cases parts : ((Files.parts path).filter (· ≠ ".")).dropLast.reverse with
  | nil => rfl
  | cons part parents =>
    rw [parts] at leads
    exact createAll_of_leadsToDirectory (leadsToDirectory_put (leads (by simp)) leaf)

/-- Whether a file can be written does not depend on what is written. -/
theorem write_of_write {path : String} {bytes : List UInt8} (h : f.write path bytes = .ok g) :
    ∃ place, f.isDirectory place = false ∧
      ∀ others, f.write path others = .ok (f.put place (.file others)) ∧
        (f.put place (.file bytes)).write path others = .ok (f.put place (.file others)) := by
  obtain ⟨filled, slash, place, walked, leaf, -⟩ := write_eq_ok h
  have above : place ≠ [] := by
    rintro rfl
    cases leaf
  have written {t : Files} (others : List UInt8)
      (walked : t.walk (t.start path) (parts path) = .ok place)
      (leaf : t.isDirectory place = false) :
      t.write path others = .ok (t.put place (.file others)) := by
    unfold write
    rw [refuse_bind_ok_iff, except_bind_ok_iff]
    refine ⟨by simp [filled], place, walked, ?_⟩
    rw [refuse_bind_ok_iff]
    exact ⟨by simp [slash, leaf], rfl⟩
  refine ⟨place, leaf, fun others => ⟨written others walked leaf, ?_⟩⟩
  have again := written (t := f.put place (.file bytes)) others (walk_put walked leaf)
    (by simp [isDirectory, standing_self above])
  rwa [put_put] at again

/-- A file is saved in two steps. -/
theorem save_eq_ok {path : String} {bytes : List UInt8} (h : f.save path bytes = (.ok (), g)) :
    ∃ made, f.createDirectories path = (none, made) ∧ made.write path bytes = .ok g := by
  unfold save at h
  split at h
  · cases h
  · rename_i made created
    split at h
    · rename_i written
      cases h
      exact ⟨made, created, written⟩
    · cases h

/-- A file that could be written once can be written again, and of two writings only the last one
counts. -/
theorem save_save {path : String} {bytes : List UInt8} (others : List UInt8)
    (h : f.save path bytes = (.ok (), g)) :
    ∃ last, f.save path others = (.ok (), last) ∧ g.save path others = (.ok (), last) := by
  obtain ⟨made, created, written⟩ := save_eq_ok h
  obtain ⟨place, leaf, writes⟩ := write_of_write written
  obtain rfl : made.put place (.file bytes) = g := by
    rw [(writes bytes).1] at written
    exact Except.ok.inj written
  refine ⟨made.put place (.file others), ?_, ?_⟩
  · simp only [save, created, (writes others).1]
  · simp only [save, createDirectories_again created leaf, (writes others).2]

end RoomAudio.Files
