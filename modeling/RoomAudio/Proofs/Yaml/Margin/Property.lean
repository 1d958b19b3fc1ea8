import RoomAudio.Proofs.Yaml.Margin.Basic

/-!
# Names, tags and directives inside of margins

None of these can hold a blank character, so their readers do not enter the margin at the end. Only
the line of a directive may go on into it.

## Main definitions

* `Yaml.readName_follows`, `Yaml.readTag_follows` — names and tags.
* `Yaml.readDirective_near` — directives with the end of their line.
-/

namespace RoomAudio.Yaml

open Margin
open Text (isBlank)

variable {w : Margin} {c : Cursor}

/-! ## Names -/

theorem readWord_suffix (c : Cursor) : (readWord c).2.rest <:+ c.rest := List.drop_suffix _ _

theorem readWord_cursor (c : Cursor) :
    readWord (w.cursor c) = ((readWord c).1, w.cursor (readWord c).2) := by
  have word : (w.cursor c).rest.takeWhile isWord = c.rest.takeWhile isWord :=
    takeWhile_append (fun _ => not_isWord_of_isBlank) c.rest
  have short : (c.rest.takeWhile isWord).length ≤ c.rest.length :=
    (List.takeWhile_prefix _).length_le
  rw [readWord, word]
  simp only [w.skip_cursor short]
  rfl

/-- What may stand behind a name may also stand at the end of the text. -/
theorem endsName_of_append {l : List Char} (h : endsName (l ++ w.back) = true) :
    endsName l = true := by
  cases l with
  | nil => rfl
  | cons a l => exact h

theorem readName_follows (c : Cursor) : w.Follows c.rest (readName c) (readName (w.cursor c)) := by
  intro name d found
  simp only [readName, readWord_cursor] at found ⊢
  split at found
  · cases found
  · rename_i named
    cases found
    rw [Bool.or_eq_true, not_or, Bool.not_eq_true', Bool.not_eq_false] at named
    have ends := endsName_of_append named.2
    refine ⟨(readWord c).2, ?_, rfl, readWord_suffix c⟩
    rw [if_neg (by simp [named.1, ends])]

/-! ## Tags -/

theorem ne_of_ne_cons {a : Char} {l : List Char} (other : ∀ tail, l = a :: tail → False) :
    l.head? ≠ some a := by
  intro head
  obtain ⟨tail, same⟩ := List.head?_eq_some_iff.mp head
  exact other _ same

/-- Readers that look at the first character do so by comparing it. -/
theorem readHandle_eq (directive : Bool) (c : Cursor) : readHandle directive c =
    if c.rest.head? = some '!' then
      let word := readWord (c.skip 1)
      if word.2.rest.head? = some '!' then some ('!' :: word.1 ++ ['!'], word.2.skip 1)
      else if directive && !word.1.isEmpty then none
      else some ('!' :: word.1, word.2)
    else none := by
  unfold readHandle
  split
  · rename_i rest first
    rw [if_pos (by rw [first]; rfl)]
    dsimp only
    split
    · rename_i more
      rw [if_pos (by rw [more]; rfl)]
    · rename_i other
      rw [if_neg (ne_of_ne_cons other)]
  · rename_i other
    rw [if_neg (ne_of_ne_cons other)]

theorem readHandle_follows (directive : Bool) (c : Cursor) :
    w.Follows c.rest.tail (readHandle directive c) (readHandle directive (w.cursor c)) := by
  rw [readHandle_eq, readHandle_eq]
  have first : (w.cursor c).rest.head? = some '!' ↔ c.rest.head? = some '!' :=
    head?_append_iff c.rest rfl
  simp only [first]
  refine .ite (fun mark => ?_) fun _ => .nothing
  have again : (w.cursor (readWord (c.skip 1)).2).rest.head? = some '!' ↔
      (readWord (c.skip 1)).2.rest.head? = some '!' := head?_append_iff _ rfl
  have suffix : (readWord (c.skip 1)).2.rest <:+ c.rest.tail := by
    rw [← List.drop_one]
    exact readWord_suffix (c.skip 1)
  simp only [w.skip_of_head? mark, readWord_cursor, again]
  refine .ite (fun mark => ?_) fun _ => .ite (fun _ => .nothing) fun _ => .found suffix
  rw [w.skip_of_head? mark]
  exact .found ((List.drop_suffix _ _).trans suffix)

theorem not_isUriChar_of_isBlank {verbatim : Bool} {a : Char} (h : isBlank a = true) :
    isUriChar verbatim a = false := by
  have other {b : Char} (visible : isBlank b = false) : a ≠ b :=
    beq_eq_false_iff_ne.mp (beq_false_of_isBlank h visible)
  simp [isUriChar, not_isWord_of_isBlank h, other, isBlank]

theorem hexValue?_of_isBlank {a : Char} (h : isBlank a = true) : Json.hexValue? a = none := by
  simp only [isBlank, Bool.or_eq_true, Bool.and_eq_true, decide_eq_true_eq, beq_iff_eq] at h
  unfold Json.hexValue?
  rw [if_neg (by omega), if_neg (by omega), if_neg (by omega)]

section Uri

variable {verbatim : Bool} {text l rest : List Char} {a : Char} {missing code : Nat} {m : Mark}

theorem uriFrom_cons (other : a ≠ '%') (rest : List Char) :
    uriFrom verbatim text missing code (a :: rest) m =
      if missing ≠ 0 then none
      else if isUriChar verbatim a then uriFrom verbatim (a :: text) 0 0 rest m.next
      else some (text.reverse, ⟨a :: rest, m⟩) := by
  rw [uriFrom]
  · simp [other]
  · rintro - - - rfl
    exact absurd rfl other

/-- A percent sign without two digits is a fault. -/
theorem uriFrom_percent (short : ∀ high low tail, rest = high :: low :: tail → isBlank low = true) :
    uriFrom verbatim text missing code ('%' :: rest) m = none := by
  rw [uriFrom.eq_def]
  split
  · rename_i same
    cases same
  · rename_i high low tail same
    obtain ⟨-, rfl⟩ := List.cons.inj same
    have noDigit := hexValue?_of_isBlank (short high low tail rfl)
    cases Json.hexValue? high <;> simp [noDigit]
  · rename_i same
    cases same
    simp [isUriChar]

/-- Reading the characters of a tag stops in front of the margin. -/
theorem uriFrom_back : uriFrom verbatim text missing code w.back m =
    if missing = 0 then some (text.reverse, ⟨w.back, m⟩) else none := by
  cases back : w.back with
  | nil => rfl
  | cons a back =>
    have blank := w.blank a (by simp [back])
    have other : a ≠ '%' := by
      rintro rfl
      cases blank
    rw [uriFrom_cons other, not_isUriChar_of_isBlank blank]
    simp

/-- A percent sign near the end of the text does not find its digits in the margin. -/
theorem uriFrom_percent_append (short : ∀ high low tail, rest = high :: low :: tail → False) :
    uriFrom verbatim text missing code ('%' :: (rest ++ w.back)) m = none := by
  refine uriFrom_percent fun high low tail same => w.blank low ?_
  rcases rest with _ | ⟨a, _ | ⟨b, rest⟩⟩
  · have back : w.back = high :: low :: tail := same
    simp [back]
  · have back : w.back = low :: tail := (List.cons.inj same).2
    simp [back]
  · exact (short a b rest rfl).elim

theorem uriFrom_follows (verbatim : Bool) (text : List Char) (missing code : Nat) (l : List Char)
    (m : Mark) : w.Follows l (uriFrom verbatim text missing code l m)
      (uriFrom verbatim text missing code (l ++ w.back) (w.mark m)) := by
  fun_induction uriFrom verbatim text missing code l m with
  | case1 text code m =>
    rw [List.nil_append, uriFrom_back, if_pos rfl]
    exact .found (c := ⟨[], m⟩) (List.suffix_refl _)
  | case2 text missing code m more =>
    rw [List.nil_append, uriFrom_back, if_neg more]
    exact .nothing
  | case3 text missing code a b rest m first second third fourth =>
    have suffix : rest <:+ '%' :: a :: b :: rest := List.suffix_append ['%', a, b] rest
    simp only [List.cons_append, uriFrom, mark_advance]
    refine .bind_left fun high => .bind_left fun low => .ite (fun _ => .bind_left ?_) fun _ => ?_
    · rintro ⟨missing, code⟩
      exact .ite (fun _ => (first code).mono suffix) fun _ => (second missing code).mono suffix
    · exact .ite (fun _ => .ite (fun _ => (third high low).mono suffix) fun _ =>
        (fourth high low).mono suffix) fun _ => .nothing
  | case4 text missing code a rest m short more =>
    rw [List.cons_append]
    by_cases percent : a = '%'
    · rw [percent, uriFrom_percent_append fun high low tail => short high low tail percent]
      exact .nothing
    · rw [uriFrom_cons percent, if_pos more]
      exact .nothing
  | case5 text missing code a rest m short more uri percent =>
    have same : a = '%' := beq_iff_eq.mp percent
    have short' := fun high low tail => short high low tail same
    rw [List.cons_append, same, uriFrom_percent_append short']
    exact .nothing
  | case6 text missing code a rest m short more uri other ih =>
    rw [List.cons_append, uriFrom_cons (by simpa using other), if_neg more, if_pos uri, mark_next]
    exact ih.mono (List.suffix_cons a rest)
  | case7 text missing code a rest m short more noUri =>
    have other : a ≠ '%' := by
      rintro rfl
      exact noUri (by simp [isUriChar])
    rw [List.cons_append, uriFrom_cons other, if_neg more, if_neg noUri]
    exact .found (c := ⟨a :: rest, m⟩) (List.suffix_refl _)

end Uri

theorem readUri_follows (verbatim : Bool) (c : Cursor) :
    w.Follows c.rest (readUri verbatim c) (readUri verbatim (w.cursor c)) :=
  (uriFrom_follows verbatim [] 0 0 c.rest c.mark).bind fun _ _ suffix =>
    .ite (fun _ => .nothing) fun _ => .found suffix

/-- Readers that look at the first two characters do so by comparing them. -/
theorem readTagParts_eq (c : Cursor) : readTagParts c =
    if c.rest.head? = some '!' ∧ c.rest.tail.head? = some '<' then do
      let (suffix, c) ← readUri true (c.skip 2)
      if c.rest.head? = some '>' then some (([], suffix), c.skip 1) else none
    else do
      let (handle, c) ← readHandle false c
      if isFullHandle handle then
        let (suffix, c) ← readUri false c
        return ((handle, suffix), c)
      else
        let (more, c) ← uriFrom false [] 0 0 c.rest c.mark
        let suffix := handle.drop 1 ++ more
        return (if suffix.isEmpty then ([], ['!']) else (['!'], suffix), c) := by
  unfold readTagParts
  split
  · rename_i rest first
    rw [if_pos (by rw [first]; exact ⟨rfl, rfl⟩)]
    congr 1
    funext ⟨suffix, c⟩
    dsimp only
    split
    · rename_i last
      rw [if_pos (by rw [last]; rfl)]
      rfl
    · rename_i other
      rw [if_neg (ne_of_ne_cons other)]
  · rename_i other
    rw [if_neg]
    rintro ⟨first, second⟩
    obtain ⟨tail, same⟩ := List.head?_eq_some_iff.mp first
    rw [same] at second
    obtain ⟨tail', same'⟩ := List.head?_eq_some_iff.mp second
    exact other tail' (by rw [same, ← same']; rfl)

theorem readTagParts_follows (c : Cursor) :
    w.Follows c.rest.tail (readTagParts c) (readTagParts (w.cursor c)) := by
  have first : (w.cursor c).rest.head? = some '!' ↔ c.rest.head? = some '!' :=
    head?_append_iff c.rest rfl
  have both : ((w.cursor c).rest.head? = some '!' ∧ (w.cursor c).rest.tail.head? = some '<') ↔
      c.rest.head? = some '!' ∧ c.rest.tail.head? = some '<' := by
    rw [first]
    refine and_congr_right fun mark => ?_
    obtain ⟨tail, same⟩ := List.head?_eq_some_iff.mp mark
    rw [cursor, same]
    exact head?_append_iff tail rfl
  rw [readTagParts_eq, readTagParts_eq]
  simp only [both]
  refine .ite (fun opening => ?_) fun _ => ?_
  · obtain ⟨mark, angle⟩ := opening
    have skip : (w.cursor c).skip 2 = w.cursor (c.skip 2) := by
      obtain ⟨tail, same⟩ := List.head?_eq_some_iff.mp mark
      rw [same] at angle
      obtain ⟨tail', same'⟩ := List.head?_eq_some_iff.mp angle
      rw [List.tail_cons] at same'
      exact w.skip_cursor (by simp [same, same'])
    have inside : (c.skip 2).rest <:+ c.rest.tail := by
      rw [← List.drop_one]
      exact List.drop_suffix_drop_left c.rest (by decide)
    rw [skip]
    refine ((readUri_follows true (c.skip 2)).mono inside).bind fun suffix d within => ?_
    have last : (w.cursor d).rest.head? = some '>' ↔ d.rest.head? = some '>' :=
      head?_append_iff d.rest rfl
    simp only [last]
    refine .ite (fun mark => ?_) fun _ => .nothing
    rw [w.skip_of_head? mark]
    exact .found ((List.drop_suffix _ _).trans within)
  · refine (readHandle_follows false c).bind fun handle d within => .ite (fun _ => ?_) fun _ => ?_
    · exact ((readUri_follows false d).mono within).bind fun _ _ suffix => .found suffix
    · exact ((uriFrom_follows false [] 0 0 d.rest d.mark).mono within).bind
        fun _ _ suffix => .found suffix

/-- A tag takes its first character. -/
theorem readTag_follows (flow : Bool) (c : Cursor) :
    w.Follows c.rest.tail (readTag flow c) (readTag flow (w.cursor c)) := by
  refine (readTagParts_follows c).bind fun tag d within => ?_
  have comma : ((w.cursor d).rest.head? == some ',') = (d.rest.head? == some ',') := by
    rw [Bool.eq_iff_iff, beq_iff_eq, beq_iff_eq]
    exact head?_append_iff d.rest rfl
  intro found e same
  dsimp only at same ⊢
  rw [comma] at same
  split at same
  · rename_i ends
    cases same
    rw [Bool.or_eq_true] at ends
    refine ⟨d, if_pos ?_, rfl, within⟩
    rw [Bool.or_eq_true]
    exact ends.imp_left startsGap_of_append
  · cases same

/-! ## The end of a line -/

theorem skipSpacing_append {l : List Char} (ends : EndsVisibly l) (more : l ≠ []) (m : Mark) :
    (skipSpacing l m).rest ≠ [] ∧ (skipSpacing l m).rest <:+ l ∧
      skipSpacing (l ++ w.back) (w.mark m) = w.cursor (skipSpacing l m) := by
  fun_induction skipSpacing l m with
  | case1 a rest m spacing ih =>
    have later : rest ≠ [] := by
      rintro rfl
      exact absurd (isBlank_of_isSpacing spacing) (by simp [ends.last])
    obtain ⟨some, suffix, same⟩ := ih ends.tail later
    refine ⟨some, suffix.trans (List.suffix_cons a rest), ?_⟩
    rw [List.cons_append, skipSpacing, if_pos spacing, mark_next, same]
  | case2 a rest m other =>
    refine ⟨by simp, List.suffix_refl _, ?_⟩
    rw [List.cons_append, skipSpacing, if_neg other]
    rfl
  | case3 m => exact absurd rfl more

theorem reaches_skipSpacing (l : List Char) (m : Mark) :
    Cursor.Reaches ⟨l, m⟩ (skipSpacing l m) := by
  fun_induction skipSpacing l m with
  | case1 a rest m spacing ih => exact ih.cons
  | case2 => exact .refl _
  | case3 => exact .refl _

theorem reaches_skipLine (l : List Char) (m : Mark) : Cursor.Reaches ⟨l, m⟩ (skipLine l m) := by
  fun_induction skipLine l m with
  | case1 => exact .refl _
  | case2 a rest m other ih => exact ih.cons
  | case3 => exact .refl _

theorem reaches_skipBreak (l : List Char) (m : Mark) : Cursor.Reaches ⟨l, m⟩ (skipBreak l m) := by
  unfold skipBreak
  split
  · exact (Cursor.Reaches.refl _).cons_cons_newline
  · split
    · exact (Cursor.Reaches.refl _).cons_newline
    · exact .refl _
  · exact .refl _

theorem skipLine_near {l : List Char} (ends : EndsVisibly l) (m : Mark) :
    w.Near (skipLine l m) (skipLine (l ++ w.back) (w.mark m)) := by
  fun_induction skipLine l m with
  | case1 a rest m breaks =>
    rw [List.cons_append, skipLine, if_pos breaks]
    exact near_cursor (c := ⟨a :: rest, m⟩) ends
  | case2 a rest m other ih =>
    rw [List.cons_append, skipLine, if_neg other]
    exact ih ends.tail
  | case3 m => exact near_of_reaches (reaches_skipLine _ _)

theorem skipBreak_cons {a : Char} {rest : List Char} (apart : Apart a rest) (m : Mark) :
    skipBreak (a :: rest) m =
      if isBreak a then ⟨rest, m.newline 1⟩ else ⟨a :: rest, m⟩ := by
  rw [skipBreak]
  exact apart

theorem skipBreak_near {c d : Cursor} (near : w.Near c d) :
    w.Near (skipBreak c.rest c.mark) (skipBreak d.rest d.mark) := by
  cases near with
  | past blank before => exact Near.reaches (.past blank before) rfl (reaches_skipBreak _ _)
  | @inside c more ends =>
    obtain ⟨l, m⟩ := c
    rcases l with _ | ⟨a, rest⟩
    · exact absurd rfl more
    by_cases apart : Apart a rest
    · have ends' : EndsVisibly (a :: rest) := ends
      dsimp only [cursor]
      rw [List.cons_append, skipBreak_cons apart, skipBreak_cons (apart_append apart ends')]
      split
      · rw [mark_newline]
        exact near_cursor (c := ⟨rest, m.newline 1⟩) ends'.tail
      · exact near_cursor (c := ⟨a :: rest, m⟩) ends'
    · obtain ⟨tail, rfl, rfl⟩ : ∃ tail, a = '\r' ∧ rest = '\n' :: tail := by
        by_contra never
        exact apart fun tail first second => never ⟨tail, first, second⟩
      have ends' : EndsVisibly ('\r' :: '\n' :: tail) := ends
      dsimp only [cursor]
      rw [List.cons_append, List.cons_append, skipBreak, skipBreak, mark_newline]
      exact near_cursor (c := ⟨tail, m.newline 2⟩) ends'.tail.tail

def skipComment (c : Cursor) : Cursor :=
  if c.rest.head? = some '#' then skipLine c.rest c.mark else c

/-- Spaces, a comment and a line break are passed in turn. -/
theorem skipLineEnd_eq (l : List Char) (m : Mark) : skipLineEnd l m =
    let c := skipComment (skipSpacing l m)
    if startsBreak c.rest then some (skipBreak c.rest c.mark) else none := by
  refine congrArg (fun c : Cursor =>
    if startsBreak c.rest then some (skipBreak c.rest c.mark) else none) ?_
  rw [skipComment]
  split
  · rename_i hash
    rw [if_pos (by rw [hash]; rfl)]
  · rename_i other
    rw [if_neg (ne_of_ne_cons other)]

theorem skipSpacing_near {c d : Cursor} (near : w.Near c d) :
    w.Near (skipSpacing c.rest c.mark) (skipSpacing d.rest d.mark) := by
  cases near with
  | past blank before => exact Near.reaches (.past blank before) rfl (reaches_skipSpacing _ _)
  | @inside c more ends =>
    obtain ⟨-, suffix, same⟩ := skipSpacing_append (w := w) ends more c.mark
    rw [cursor, same]
    exact near_cursor (ends.of_suffix suffix)

theorem skipComment_near {c d : Cursor} (near : w.Near c d) :
    w.Near (skipComment c) (skipComment d) := by
  rw [skipComment, skipComment]
  cases near with
  | @past m d blank before =>
    have noHash : d.rest.head? ≠ some '#' := by
      intro hash
      exact absurd (blank '#' (List.mem_of_mem_head? hash)) (by decide)
    rw [if_neg noHash, if_neg (by simp)]
    exact .past blank before
  | @inside c more ends =>
    have hash : (w.cursor c).rest.head? = some '#' ↔ c.rest.head? = some '#' :=
      head?_append_iff c.rest rfl
    simp only [hash]
    split
    · exact skipLine_near ends c.mark
    · exact .inside more ends

/-- The end of a line inside of margins is one of the text alone. -/
theorem skipLineEnd_near {c d e : Cursor} (near : w.Near c d)
    (found : skipLineEnd d.rest d.mark = some e) :
    ∃ b, skipLineEnd c.rest c.mark = some b ∧ w.Near b e := by
  have near := skipComment_near (skipSpacing_near near)
  rw [skipLineEnd_eq] at found ⊢
  generalize skipComment (skipSpacing c.rest c.mark) = c' at near ⊢
  generalize skipComment (skipSpacing d.rest d.mark) = d' at near found
  dsimp only at found ⊢
  split at found
  · rename_i breaks
    cases found
    refine ⟨_, if_pos ?_, skipBreak_near near⟩
    obtain ⟨_ | ⟨a, l⟩, m⟩ := c'
    · rfl
    · cases near with
      | inside => exact breaks
  · cases found

theorem reaches_skipLineEnd {l : List Char} {m : Mark} {c : Cursor}
    (found : skipLineEnd l m = some c) : Cursor.Reaches ⟨l, m⟩ c := by
  rw [skipLineEnd_eq] at found
  have comment (d : Cursor) : d.Reaches (skipComment d) := by
    rw [skipComment]
    split
    · exact reaches_skipLine _ _
    · exact .refl _
  dsimp only at found
  split at found
  · cases found
    exact ((reaches_skipSpacing l m).trans (comment _)).trans (reaches_skipBreak _ _)
  · cases found

/-! ## Directives -/

theorem not_isDigit_of_isBlank {a : Char} (blank : isBlank a = true) : a.isDigit = false := by
  cases digit : a.isDigit with
  | false => rfl
  | true =>
    rw [Text.isBlank_of_isDigit digit] at blank
    cases blank

theorem readVersionNumber_follows (c : Cursor) :
    w.Follows c.rest (readVersionNumber c) (readVersionNumber (w.cursor c)) := by
  have digits : (w.cursor c).rest.takeWhile Char.isDigit = c.rest.takeWhile Char.isDigit :=
    takeWhile_append (fun _ => not_isDigit_of_isBlank) c.rest
  have short : (c.rest.takeWhile Char.isDigit).length ≤ c.rest.length :=
    (List.takeWhile_prefix _).length_le
  rw [readVersionNumber, readVersionNumber, digits]
  simp only [w.skip_cursor short]
  exact .ite (fun _ => .nothing) fun _ => .found (List.drop_suffix _ _)

theorem readVersion_eq (c : Cursor) : readVersion c = (do
    let (major, c) ← readVersionNumber (skipSpacing c.rest c.mark)
    if c.rest.head? = some '.' then
      let (minor, c) ← readVersionNumber (c.skip 1)
      return (.versionDirective major minor, c)
    else none) := by
  unfold readVersion
  dsimp only
  congr 1
  funext ⟨major, c⟩
  dsimp only
  split
  · rename_i dot
    rw [if_pos (by rw [dot]; rfl)]
  · rename_i other
    rw [if_neg (ne_of_ne_cons other)]

theorem readVersionNumber_of_blank {c : Cursor} (blank : ∀ a ∈ c.rest, isBlank a = true) :
    readVersionNumber c = none := by
  have digits : c.rest.takeWhile Char.isDigit = [] := by
    cases rest : c.rest with
    | nil => rfl
    | cons a l => simp [not_isDigit_of_isBlank (blank a (by simp [rest]))]
  rw [readVersionNumber, digits]
  rfl

/-- Spaces are passed in front of what a reader needs. -/
theorem Margin.Follows.skipSpacing {α : Type} {read : Cursor → Option (α × Cursor)} (c : Cursor)
    (ends : EndsVisibly c.rest)
    (blank : ∀ d : Cursor, (∀ a ∈ d.rest, isBlank a = true) → read d = none)
    (follows : ∀ d : Cursor, EndsVisibly d.rest → w.Follows d.rest (read d) (read (w.cursor d))) :
    w.Follows c.rest (read (skipSpacing c.rest c.mark))
      (read (skipSpacing (w.cursor c).rest (w.cursor c).mark)) := by
  by_cases more : c.rest = []
  · have inside : ∀ a ∈ (Yaml.skipSpacing (w.cursor c).rest (w.cursor c).mark).rest,
        isBlank a = true := by
      intro a mem
      have mem := (reaches_skipSpacing (w.cursor c).rest (w.cursor c).mark).suffix.subset mem
      exact w.blank a (by simpa [cursor, more] using mem)
    rw [blank _ inside]
    exact .nothing
  · obtain ⟨-, suffix, same⟩ := skipSpacing_append (w := w) ends more c.mark
    rw [cursor, same]
    exact (follows _ (ends.of_suffix suffix)).mono suffix

theorem readVersion_follows {c : Cursor} (ends : EndsVisibly c.rest) :
    w.Follows c.rest (readVersion c) (readVersion (w.cursor c)) := by
  rw [readVersion_eq, readVersion_eq]
  refine (Follows.skipSpacing c ends (fun _ => readVersionNumber_of_blank) fun d _ =>
    readVersionNumber_follows d).bind fun major d within => ?_
  have dot : (w.cursor d).rest.head? = some '.' ↔ d.rest.head? = some '.' :=
    head?_append_iff d.rest rfl
  simp only [dot]
  refine .ite (fun dot => ?_) fun _ => .nothing
  rw [w.skip_of_head? dot]
  exact ((readVersionNumber_follows (d.skip 1)).mono ((List.drop_suffix _ _).trans within)).bind
    fun minor e suffix => .found suffix

def readTagStart (handle : List Char) (c : Cursor) : Option (Token × Cursor) := do
  let (start, c) ← readUri true (skipSpacing c.rest c.mark)
  if startsGap c.rest then return (.tagDirective handle start, c) else none

theorem readTagDirective_eq (c : Cursor) : readTagDirective c = (do
    let (handle, c) ← readHandle true (skipSpacing c.rest c.mark)
    if c.rest.head?.any isSpacing then readTagStart handle c else none) := by
  unfold readTagDirective
  dsimp only
  congr 1
  funext ⟨handle, c⟩
  dsimp only
  cases rest : c.rest with
  | nil => rfl
  | cons a l =>
    cases spacing : isSpacing a <;> simp [spacing, readTagStart, rest]

theorem readUri_of_blank {c : Cursor} (blank : ∀ a ∈ c.rest, isBlank a = true) :
    readUri true c = none := by
  have only : c.rest = (⟨0, 0, c.rest, blank⟩ : Margin).back := rfl
  rw [readUri, only, uriFrom_back]
  rfl

theorem readTagStart_follows (handle : List Char) {c : Cursor} (ends : EndsVisibly c.rest) :
    w.Follows c.rest (readTagStart handle c) (readTagStart handle (w.cursor c)) := by
  refine (Follows.skipSpacing c ends (fun _ => readUri_of_blank) fun d _ =>
    readUri_follows true d).bind fun start d within => ?_
  intro token e found
  dsimp only at found ⊢
  split at found
  · rename_i gap
    cases found
    exact ⟨d, if_pos (startsGap_of_append gap), rfl, within⟩
  · cases found

theorem readHandle_of_blank {c : Cursor} (blank : ∀ a ∈ c.rest, isBlank a = true) :
    readHandle true c = none := by
  rw [readHandle_eq, if_neg]
  intro mark
  exact absurd (blank '!' (List.mem_of_mem_head? mark)) (by decide)

theorem readTagDirective_follows {c : Cursor} (ends : EndsVisibly c.rest) :
    w.Follows c.rest (readTagDirective c) (readTagDirective (w.cursor c)) := by
  rw [readTagDirective_eq, readTagDirective_eq]
  refine (Follows.skipSpacing c ends (fun _ => readHandle_of_blank) fun d _ =>
    (readHandle_follows true d).mono (List.tail_suffix _)).bind fun handle d within => ?_
  intro token e found
  dsimp only at found ⊢
  split at found
  · rename_i spacing
    obtain ⟨b, started, place, suffix⟩ :=
      readTagStart_follows handle (ends.of_suffix within) _ _ found
    -- a space of the margin does not lead to anything
    have more : d.rest ≠ [] := by
      intro empty
      have nothing : readUri true (skipSpacing d.rest d.mark) = none := by
        rw [empty]
        rfl
      rw [readTagStart, nothing] at started
      cases started
    obtain ⟨a, l, same⟩ := List.exists_cons_of_ne_nil more
    rw [cursor, same] at spacing
    rw [same]
    exact ⟨b, (if_pos spacing).trans started, place, suffix.trans within⟩
  · cases found

def readNamed (name : List Char) (c : Cursor) : Option (Token × Cursor) :=
  if name = ['Y', 'A', 'M', 'L'] then readVersion c
  else if name = ['T', 'A', 'G'] then readTagDirective c
  else none

/-- A directive is a name, what belongs to this name, and the end of the line. -/
theorem readDirective_eq (c : Cursor) : readDirective c =
    if (readWord c).1.isEmpty || !startsGap (readWord c).2.rest then none
    else do
      let (token, c) ← readNamed (readWord c).1 (readWord c).2
      let c ← skipLineEnd c.rest c.mark
      return (token, c) := by
  unfold readDirective readNamed
  dsimp only
  repeat' split
  all_goals rfl

theorem readDirective_eq_some_iff (c d : Cursor) (token : Token) :
    readDirective c = some (token, d) ↔
      (readWord c).1.isEmpty = false ∧ startsGap (readWord c).2.rest = true ∧
      ∃ b, readNamed (readWord c).1 (readWord c).2 = some (token, b) ∧
        skipLineEnd b.rest b.mark = some d := by
  rw [readDirective_eq]
  cases (readWord c).1.isEmpty <;> cases startsGap (readWord c).2.rest <;>
    simp [Option.bind_eq_some_iff]

/-- A directive inside of margins is one of the text alone. -/
theorem readDirective_near {c e : Cursor} {token : Token} (ends : EndsVisibly c.rest)
    (found : readDirective (w.cursor c) = some (token, e)) :
    ∃ d, readDirective c = some (token, d) ∧ w.Near d e ∧ d.rest <:+ c.rest := by
  rw [readDirective_eq_some_iff, readWord_cursor] at found
  obtain ⟨filled, gap, b, named, past⟩ := found
  have word := readWord_suffix c
  have follows : w.Follows (readWord c).2.rest (readNamed (readWord c).1 (readWord c).2)
      (readNamed (readWord c).1 (w.cursor (readWord c).2)) :=
    .ite (fun _ => readVersion_follows (ends.of_suffix word)) fun _ =>
      .ite (fun _ => readTagDirective_follows (ends.of_suffix word)) fun _ => .nothing
  obtain ⟨b', named', rfl, within⟩ := follows _ _ named
  have inside := within.trans word
  obtain ⟨d, past', near⟩ := skipLineEnd_near (near_cursor (ends.of_suffix inside)) past
  refine ⟨d, ?_, near, (reaches_skipLineEnd past').suffix.trans inside⟩
  rw [readDirective_eq_some_iff]
  exact ⟨filled, startsGap_of_append gap, b', named', past'⟩

end RoomAudio.Yaml
