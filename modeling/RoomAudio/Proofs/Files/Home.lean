import RoomAudio.Files
import RoomAudio.Proofs.Text.Pieces

/-!
# Paths below the home directory

A path is told by its components, whatever its slashes look like. Joining puts the components of a
relative path behind those of the directory that it is taken from, but an absolute path takes the
directory's place. So a path that begins with a tilde and a slash leads below the home directory,
unless a further slash follows: then what is left is absolute and the home directory is lost.

## Main definitions

* `Files.components` — the root and the names that a path consists of.
* `Files.components_join` — joined paths, component by component.
* `Files.home_above_iff` — which paths lead below the home directory.
-/

namespace RoomAudio.Files

variable {base home path : String}

/-- The names on a path. A single dot between slashes stands for no step. -/
def names (path : String) : List String := (parts path).filter (· ≠ ".")

/-- What a path consists of: the root, written as a slash, and the names below it. The dot that a
relative path begins with is kept. -/
def components (path : String) : List String :=
  if isAbsolute path then "/" :: names path
  else if (parts path).head? = some "." then "." :: names path
  else names path

/-! ## Joined paths -/

/-- A slash ends a part, and further slashes make no difference. -/
theorem parts_slash (l r : List Char) :
    parts (String.ofList (l ++ '/' :: r)) = parts (String.ofList l) ++ parts (String.ofList r) := by
  unfold parts
  simp only [String.toList_ofList, Text.splitOn_eq_splitOnP]
  rw [List.splitOnP_append_cons l r (by rfl), List.filter_append, List.map_append]

theorem endsInSlash_iff : endsInSlash path = true ↔ ∃ l, path = String.ofList (l ++ ['/']) := by
  rw [endsInSlash, beq_iff_eq, List.getLast?_eq_some_iff]
  exact exists_congr fun l => by rw [← String.toList_inj, String.toList_ofList]

/-- The parts of a relative path stand behind those of the path that it is joined to. -/
theorem parts_join (relative : isAbsolute path = false) :
    parts (join base path) = parts base ++ parts path := by
  have slashed (l : List Char) :
      parts (String.ofList (l ++ '/' :: path.toList)) = parts (String.ofList l) ++ parts path := by
    rw [parts_slash, String.ofList_toList]
  rw [join, relative, if_neg Bool.false_ne_true]
  split
  · rename_i closed
    rcases Bool.or_eq_true_iff.mp closed with empty | slash
    · obtain rfl : base = "" := by simpa using empty
      rw [String.empty_append]
      rfl
    · obtain ⟨l, rfl⟩ := endsInSlash_iff.mp slash
      have joined :
          String.ofList (l ++ ['/']) ++ path = String.ofList (l ++ '/' :: path.toList) := by
        simp [← String.toList_inj]
      have same : parts (String.ofList (l ++ ['/'])) = parts (String.ofList l) := by
        rw [parts_slash]
        exact List.append_nil _
      rw [joined, slashed, same]
  · have joined : base ++ "/" ++ path = String.ofList (base.toList ++ '/' :: path.toList) := by
      simp [← String.toList_inj]
    rw [joined, slashed, String.ofList_toList]

/-- A path that is joined to an absolute one is absolute. -/
theorem isAbsolute_join (rooted : isAbsolute base = true) : isAbsolute (join base path) = true := by
  have front (s : String) : isAbsolute (base ++ s) = true := by
    unfold isAbsolute at rooted ⊢
    rw [beq_iff_eq] at rooted ⊢
    rw [String.toList_append, List.head?_append, rooted]
    rfl
  unfold join
  split
  · assumption
  · split
    · exact front path
    · rw [String.append_assoc]
      exact front _

/-- Joining appends the names of a relative path to the components of a directory. -/
theorem components_join (rooted : isAbsolute base = true) (relative : isAbsolute path = false) :
    components (join base path) = components base ++ names path := by
  unfold components names
  rw [isAbsolute_join rooted, if_pos rfl, rooted, if_pos rfl, parts_join relative,
    List.filter_append, List.cons_append]

/-! ## The home directory -/

/-- What stands behind the tilde is joined to the home directory. -/
theorem expandHome_eq_join {slash : Char} {rest : List Char}
    (slashes : slash = '/' ∨ slash = '\\')
    (tilde : Text.trimChars path.toList = '~' :: slash :: rest) :
    expandHome home path = join home (String.ofList rest) := by
  rcases slashes with rfl | rfl <;> simp only [expandHome, tilde]

/-- A path that begins with a tilde and a slash leads below the home directory if and only if no
further slash follows, but for absolute paths that lead there by themselves. Then its components
are those of the home directory and the names that follow; otherwise the tilde is dropped and the
home directory plays no part. -/
theorem home_above_iff {slash : Char} {rest : List Char} (rooted : isAbsolute home = true)
    (slashes : slash = '/' ∨ slash = '\\')
    (tilde : Text.trimChars path.toList = '~' :: slash :: rest) :
    (components home <+: components (expandHome home path) ↔
      rest.head? ≠ some '/' ∨ components home <+: components (String.ofList rest)) ∧
    (rest.head? ≠ some '/' →
      components (expandHome home path) = components home ++ names (String.ofList rest)) ∧
    (rest.head? = some '/' → expandHome home path = String.ofList rest) := by
  have head : isAbsolute (String.ofList rest) = true ↔ rest.head? = some '/' := by
    rw [isAbsolute, String.toList_ofList, beq_iff_eq]
  rw [expandHome_eq_join slashes tilde]
  by_cases absolute : rest.head? = some '/'
  · have replaced : join home (String.ofList rest) = String.ofList rest := by
      rw [join, if_pos (head.mpr absolute)]
    simp [absolute, replaced]
  · have behind := components_join rooted (Bool.eq_false_iff.mpr (mt head.mp absolute))
    simp [absolute, behind]

/-- Blank ends, a backslash and a dot do not lead away from the home directory. -/
theorem home_above_iff_music :
    components "/home/tester/" <+:
        components (expandHome "/home/tester/" " ~\\music/./rooms.json ") ∧
      components (expandHome "/home/tester/" " ~\\music/./rooms.json ") =
        ["/", "home", "tester", "music", "rooms.json"] := by
  have rooted : isAbsolute "/home/tester/" = true := by decide +kernel
  have tilde : Text.trimChars " ~\\music/./rooms.json ".toList =
      '~' :: '\\' :: "music/./rooms.json".toList := by decide +kernel
  have relative : "music/./rooms.json".toList.head? ≠ some '/' := by decide +kernel
  have below := home_above_iff rooted (.inr rfl) tilde
  refine ⟨below.1.mpr (.inl relative), ?_⟩
  rw [below.2.1 relative]
  decide +kernel

/-- With a second slash the path is taken to begin at the root. -/
theorem home_left_by_second_slash :
    Text.trimChars "~//etc/roomcast.json".toList = '~' :: '/' :: "/etc/roomcast.json".toList ∧
      expandHome "/home/tester" "~//etc/roomcast.json" = "/etc/roomcast.json" ∧
      ¬ components "/home/tester" <+:
        components (expandHome "/home/tester" "~//etc/roomcast.json") := by
  decide +kernel

end RoomAudio.Files
