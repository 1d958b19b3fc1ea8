import RoomAudio.Text.Case

/-!
# The case of ASCII letters

Lower-casing does not tell apart what differs in the case of ASCII letters alone, although a
capital sigma depends on its neighbours. Texts in ASCII are the same up to case exactly if they
are the same in lower case. Other texts do not become ASCII by that, unless they hold a Kelvin sign.

## Main definitions

* `Text.lowerChars_map_toLower` — the case of ASCII letters does not matter to lower-casing.
* `Text.lowerAfter_of_ascii` — which is all that happens to a text in ASCII.
* `Text.lower_eq_of_same`, `Text.same_of_lower_eq` — the two ways to look past case compared.
* `Text.lower_eq_iff_asciiLower_eq` — they agree on what leads to a text in ASCII without a `k`.
-/

namespace RoomAudio.Text

namespace Case

variable {runs : List (Nat × Nat)} {n : Nat}

theorem inRuns_of_apart (first last : Nat) (apart : ∀ run ∈ runs, run.2 < first ∨ last < run.1)
    (ge : first ≤ n) (le : n ≤ last) : inRuns runs n = false := by
  rw [inRuns, List.any_eq_false]
  intro run mem
  have := apart run mem
  simp only [Bool.and_eq_true, decide_eq_true_eq]
  omega

theorem inRuns_of_mem (first last : Nat) (mem : (first, last) ∈ runs) (ge : first ≤ n)
    (le : n ≤ last) : inRuns runs n = true :=
  List.any_eq_true.mpr ⟨_, mem, by simp [ge, le]⟩

theorem lookup_of_lt {runs : List (Nat × Nat × Nat × Int)} (h : ∀ run ∈ runs, n < run.1) :
    lookup n runs = none := by
  induction runs with
  | nil => rfl
  | cons run runs ih =>
    obtain ⟨first, last, step, offset⟩ := run
    have lt : ¬ first ≤ n := Nat.not_le.mpr (h _ List.mem_cons_self)
    rw [lookup, if_neg (by simp [lt])]
    exact ih fun run mem => h run (List.mem_cons_of_mem _ mem)

/-- The table begins with the capital ASCII letters. -/
theorem lowerRuns_eq : ∃ runs, lowerRuns = (0x41, 0x5A, 1, 32) :: runs ∧
    ∀ run ∈ runs, 128 ≤ run.1 :=
  ⟨lowerRuns.tail, rfl, by decide +kernel⟩

/-- The capital letters of ASCII have their small ones. -/
theorem lookup_capital (ge : 0x41 ≤ n) (le : n ≤ 0x5A) : lookup n lowerRuns = some (n + 32) := by
  obtain ⟨runs, eq, -⟩ := lowerRuns_eq
  rw [eq, lookup, if_pos (by simp [ge, le, Nat.mod_one])]
  simp only [Option.some.injEq]
  omega

/-- The other characters of ASCII are small already. -/
theorem lookup_ascii (small : n < 128) (other : n < 0x41 ∨ 0x5A < n) :
    lookup n lowerRuns = none := by
  obtain ⟨runs, eq, later⟩ := lowerRuns_eq
  rw [eq, lookup, if_neg]
  · exact lookup_of_lt fun run mem => Nat.lt_of_lt_of_le small (later run mem)
  · simp only [Bool.and_eq_true, decide_eq_true_eq]
    omega

end Case

/-! ## Single characters -/

variable {c : Char}

theorem isUpper_iff : c.isUpper = true ↔ 0x41 ≤ c.toNat ∧ c.toNat ≤ 0x5A := by
  change decide ('A'.val ≤ c.val ∧ c.val ≤ 'Z'.val) = true ↔ _
  rw [decide_eq_true_iff, UInt32.le_iff_toNat_le, UInt32.le_iff_toNat_le]
  rfl

theorem toLower_of_not_isUpper (h : c.isUpper = false) : c.toLower = c :=
  dif_neg (of_decide_eq_false h)

theorem toNat_toLower (h : c.isUpper = true) : c.toLower.toNat = c.toNat + 32 := by
  have small : c.val.toNat ≤ 0x5A := (isUpper_iff.mp h).2
  have changed : c.toLower = ⟨c.val + ('a'.val - 'A'.val), _⟩ := dif_pos (of_decide_eq_true h)
  rw [changed]
  change (c.val + ('a'.val - 'A'.val)).toNat = c.val.toNat + 32
  have shift : ('a'.val - 'A'.val).toNat = 32 := by decide
  rw [UInt32.toNat_add, shift]
  omega

/-- Letters and their lower-case forms take part in words alike. -/
theorem isCased_toLower (c : Char) : Case.isCased c.toLower = Case.isCased c := by
  cases upper : c.isUpper with
  | false => rw [toLower_of_not_isUpper upper]
  | true =>
    obtain ⟨ge, le⟩ := isUpper_iff.mp upper
    have shifted := toNat_toLower upper
    rw [Case.isCased, Case.isCased,
      Case.inRuns_of_mem 0x41 0x5A (by decide) ge le,
      Case.inRuns_of_mem 0x61 0x7A (by decide) (by omega) (by omega)]

theorem isIgnorable_toLower (c : Char) : Case.isIgnorable c.toLower = Case.isIgnorable c := by
  cases upper : c.isUpper with
  | false => rw [toLower_of_not_isUpper upper]
  | true =>
    obtain ⟨ge, le⟩ := isUpper_iff.mp upper
    have shifted := toNat_toLower upper
    rw [Case.isIgnorable, Case.isIgnorable,
      Case.inRuns_of_apart 0x41 0x5A (by decide +kernel) ge le,
      Case.inRuns_of_apart 0x61 0x7A (by decide +kernel) (by omega)
        (by omega)]

theorem eq_capitalSigma_iff_toLower (c : Char) : c.toLower = capitalSigma ↔ c = capitalSigma := by
  cases upper : c.isUpper with
  | false => rw [toLower_of_not_isUpper upper]
  | true =>
    obtain ⟨ge, le⟩ := isUpper_iff.mp upper
    have shifted := toNat_toLower upper
    have sigma : capitalSigma.toNat = 0x3A3 := rfl
    constructor
    · intro h
      rw [h] at shifted
      omega
    · rintro rfl
      omega

theorem lowerChar_of_ascii (small : c.toNat < 128) : lowerChar c = [c.toLower] := by
  rw [lowerChar, if_neg (by omega)]
  cases upper : c.isUpper with
  | false =>
    have other : c.toNat < 0x41 ∨ 0x5A < c.toNat := by
      have := mt isUpper_iff.mpr (Bool.eq_false_iff.mp upper)
      omega
    rw [Case.lookup_ascii small other, toLower_of_not_isUpper upper]
  | true =>
    obtain ⟨ge, le⟩ := isUpper_iff.mp upper
    rw [Case.lookup_capital ge le, ← toNat_toLower upper]
    simp

/-- Lower case does not tell the cases of ASCII letters apart. -/
theorem lowerChar_toLower (c : Char) : lowerChar c.toLower = lowerChar c := by
  cases upper : c.isUpper with
  | false => rw [toLower_of_not_isUpper upper]
  | true =>
    obtain ⟨ge, le⟩ := isUpper_iff.mp upper
    have shifted := toNat_toLower upper
    have small : c.toLower.isUpper = false := by
      rw [Bool.eq_false_iff, ne_eq, isUpper_iff]
      omega
    rw [lowerChar_of_ascii (c := c) (by omega), lowerChar_of_ascii (by omega),
      toLower_of_not_isUpper small]

/-! ## Texts -/

theorem startsCased_cons (c : Char) (l : List Char) :
    Case.startsCased (c :: l) =
      if Case.isIgnorable c then Case.startsCased l else Case.isCased c := by
  by_cases skipped : Case.isIgnorable c <;> simp [Case.startsCased, skipped]

/-- Nor does what decides about a final sigma. -/
theorem startsCased_map_toLower (l : List Char) :
    Case.startsCased (l.map Char.toLower) = Case.startsCased l := by
  induction l with
  | nil => rfl
  | cons c l ih =>
    rw [List.map_cons, startsCased_cons, startsCased_cons, isIgnorable_toLower, isCased_toLower, ih]

theorem lowerAfter_map_toLower (before l : List Char) :
    lowerAfter (before.map Char.toLower) (l.map Char.toLower) = lowerAfter before l := by
  induction l generalizing before with
  | nil => rfl
  | cons c l ih =>
    rw [List.map_cons, lowerAfter, lowerAfter, ← List.map_cons, ih, startsCased_map_toLower,
      startsCased_map_toLower, lowerChar_toLower]
    simp only [eq_capitalSigma_iff_toLower]

theorem lowerChars_map_toLower (l : List Char) : lowerChars (l.map Char.toLower) = lowerChars l :=
  lowerAfter_map_toLower [] l

/-- In ASCII lower case is found letter by letter. -/
theorem lowerAfter_of_ascii {l : List Char} (ascii : ∀ c ∈ l, c.toNat < 128)
    (before : List Char) : lowerAfter before l = l.map Char.toLower := by
  induction l generalizing before with
  | nil => rfl
  | cons c l ih =>
    obtain ⟨small, rest⟩ := List.forall_mem_cons.mp ascii
    have other : c ≠ capitalSigma := by
      rintro rfl
      exact absurd small (by decide)
    rw [lowerAfter, if_neg other, lowerChar_of_ascii small, ih rest, List.map_cons,
      List.singleton_append]

def IsAscii (s : String) : Prop := ∀ c ∈ s.toList, c.toNat < 128

instance (s : String) : Decidable (IsAscii s) := List.decidableBAll _ s.toList

theorem same_iff {s t : String} :
    sameUpToAsciiCase s t = true ↔ s.toList.map Char.toLower = t.toList.map Char.toLower :=
  beq_iff_eq

@[simp] theorem same_refl (s : String) : sameUpToAsciiCase s s = true := same_iff.mpr rfl

/-- Texts are the same up to case if their small letters are. -/
theorem same_iff_asciiLower {s t : String} :
    sameUpToAsciiCase s t = true ↔ asciiLower s = asciiLower t := by
  rw [same_iff, asciiLower, asciiLower, String.ofList_inj]

/-- The case of what a text is compared with does not matter. -/
theorem same_congr {t t' : String} (h : sameUpToAsciiCase t t' = true) (s : String) :
    sameUpToAsciiCase s t = sameUpToAsciiCase s t' := by
  rw [sameUpToAsciiCase, sameUpToAsciiCase, same_iff.mp h]

/-- Texts that differ in the case of ASCII letters alone have the same lower-case form. -/
theorem lower_eq_of_same {s t : String} (h : sameUpToAsciiCase s t = true) : lower s = lower t := by
  rw [lower, lower, ← lowerChars_map_toLower, same_iff.mp h, lowerChars_map_toLower]

/-- In ASCII there are no others that have. -/
theorem same_of_lower_eq {s t : String} (ascii : IsAscii s) (ascii' : IsAscii t)
    (h : lower s = lower t) : sameUpToAsciiCase s t = true := by
  have chars : lowerChars s.toList = lowerChars t.toList := String.ofList_injective h
  rw [lowerChars, lowerChars, lowerAfter_of_ascii ascii, lowerAfter_of_ascii ascii'] at chars
  exact same_iff.mpr chars

/-! ## Beyond ASCII -/

namespace Case

variable {m : Nat}

/-- What a table assigns comes from the run that the code point lies in. -/
theorem mem_of_lookup {runs : List (Nat × Nat × Nat × Int)} (h : lookup n runs = some m) :
    ∃ run ∈ runs, run.1 ≤ n ∧ n ≤ run.2.1 ∧ m = Int.toNat (n + run.2.2.2) := by
  induction runs with
  | nil => cases h
  | cons run runs ih => grind [lookup]

/-- The run of the Kelvin sign, whose lower-case form is a letter of ASCII. -/
def kelvinRun : Nat × Nat × Nat × Int := (0x212A, 0x212A, 1, -8383)

/-- Beyond ASCII, the lower-case forms are code points beyond ASCII too, but for one. -/
theorem lowerRuns_tail : ∀ run ∈ lowerRuns.tail, run = kelvinRun ∨
    128 ≤ run.1 + run.2.2.2 ∧
      (run.2.1 + run.2.2.2 < 0xD800 ∨
        0xDFFF < run.1 + run.2.2.2 ∧ run.2.1 + run.2.2.2 < 0x110000) := by
  decide +kernel

/-- Beyond ASCII only the Kelvin sign has a small letter in it. -/
theorem lookup_not_ascii (large : 128 ≤ n) (h : lookup n lowerRuns = some m) :
    m = 'k'.toNat ∨ 128 ≤ m ∧ m.isValidChar := by
  obtain ⟨run, mem, first, last, rfl⟩ := mem_of_lookup h
  have later : run ∈ lowerRuns.tail := by
    rw [show lowerRuns = (0x41, 0x5A, 1, 32) :: lowerRuns.tail from rfl] at mem
    rcases List.mem_cons.mp mem with rfl | later
    · dsimp only at last
      omega
    · exact later
  rcases lowerRuns_tail run later with rfl | ⟨low, high⟩
  · left
    have kelvin : n = 0x212A := Nat.le_antisymm last first
    rw [kelvin]
    rfl
  · right
    unfold Nat.isValidChar
    omega

end Case

/-- A character beyond ASCII becomes another one, unless it is the Kelvin sign. -/
theorem lowerChar_not_ascii (large : 128 ≤ c.toNat) :
    lowerChar c = ['k'] ∨ ∃ d ∈ lowerChar c, 128 ≤ d.toNat := by
  unfold lowerChar
  split
  · exact .inr ⟨'\u0307', by simp, by decide⟩
  split
  · rename_i n found
    rcases Case.lookup_not_ascii large found with rfl | ⟨beyond, valid⟩
    · exact .inl rfl
    · refine .inr ⟨Char.ofNat n, by simp, ?_⟩
      rw [Char.ofNat, dif_pos valid]
      exact beyond
  · exact .inr ⟨c, by simp, large⟩

theorem lowerAfter_cons_not_ascii (before l : List Char) (large : 128 ≤ c.toNat) :
    'k' ∈ lowerAfter before (c :: l) ∨ ∃ d ∈ lowerAfter before (c :: l), 128 ≤ d.toNat := by
  rw [lowerAfter]
  split
  · right
    split
    · exact ⟨'ς', by simp, by decide⟩
    · exact ⟨'σ', by simp, by decide⟩
  · have := lowerChar_not_ascii large
    grind

/-- A text with a lower-case form in ASCII that has no `k` is in ASCII itself. -/
theorem ascii_of_lowerAfter {l : List Char} (before : List Char)
    (ascii : ∀ d ∈ lowerAfter before l, d.toNat < 128) (noKelvin : 'k' ∉ lowerAfter before l) :
    ∀ c ∈ l, c.toNat < 128 := by
  induction l generalizing before with
  | nil => simp
  | cons c l ih =>
    have small : c.toNat < 128 := by
      apply Nat.lt_of_not_le
      intro large
      rcases lowerAfter_cons_not_ascii before l large with kelvin | ⟨d, mem, beyond⟩
      · exact noKelvin kelvin
      · exact Nat.not_lt.mpr beyond (ascii d mem)
    rw [lowerAfter] at ascii noKelvin
    have rest := ih (c :: before) (by grind) (by grind)
    exact List.forall_mem_cons.mpr ⟨small, rest⟩

/-- No character beyond ASCII becomes one of ASCII in this way. -/
theorem ascii_of_asciiLower {s : String} (h : IsAscii (asciiLower s)) : IsAscii s := by
  intro c mem
  have small : c.toLower.toNat < 128 := by
    apply h
    rw [asciiLower, String.toList_ofList]
    exact List.mem_map_of_mem mem
  cases upper : c.isUpper with
  | false => rwa [toLower_of_not_isUpper upper] at small
  | true =>
    have := isUpper_iff.mp upper
    omega

/-- Both ways to look past case lead to a text in ASCII from the same texts, if it has no `k`. -/
theorem lower_eq_iff_asciiLower_eq {s t : String} (ascii : IsAscii t) (noKelvin : 'k' ∉ t.toList) :
    lower s = t ↔ asciiLower s = t := by
  have same (small : IsAscii s) : lower s = asciiLower s := by
    rw [lower, lowerChars, lowerAfter_of_ascii small, asciiLower]
  constructor
  · intro h
    have chars : lowerAfter [] s.toList = t.toList := by rw [← h, lower, String.toList_ofList]; rfl
    have small : IsAscii s := ascii_of_lowerAfter [] (by rwa [chars]) (by rwa [chars])
    rwa [← same small]
  · intro h
    have small : IsAscii s := ascii_of_asciiLower (by rwa [h])
    rwa [same small]

end RoomAudio.Text
