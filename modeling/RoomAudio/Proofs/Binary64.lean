import RoomAudio.Binary64

/-!
# Rounding to binary64

Rounding takes a quotient to a number of 53 significant bits, and there is none that is nearer. So
a number of that form is kept as it is and rounding does not move anything across it. Sums and
products of whole numbers are exact as long as they are not too large, and once they are too large
they stay so.

## Main definitions

* `Binary64.Representable` — the numbers of 53 significant bits.
* `Binary64.round_nearest` — rounding takes a quotient to the nearest one of them.
* `Binary64.Counts` — a number is as good as a whole number.
* `Binary64.Counts.add`, `Binary64.Counts.mul` — sums and products of whole numbers.
-/

namespace RoomAudio.Binary64

/-- Whole numbers up to this one have at most 53 significant bits. -/
def wholeLimit : Nat := Nat.pow 2 53

/-- The numbers of 53 significant bits, however large they are. -/
def Representable (units : Nat) : Prop :=
  ∃ significand exponent, significand ≤ wholeLimit ∧ units = significand * Nat.pow 2 exponent

def distance (a b : Nat) : Nat := (a - b) + (b - a)

/-! ## The nearest multiple -/

/-- No whole number is nearer to the quotient. -/
theorem distance_roundHalfEven_le {n d : Nat} (pos : 0 < d) (m : Nat) :
    distance (roundHalfEven n d * d) n ≤ distance (m * d) n := by
  have split : d * (n / d) + n % d = n := Nat.div_add_mod n d
  have small : n % d < d := Nat.mod_lt n pos
  have below : m ≤ n / d → m * d ≤ n / d * d := fun h => Nat.mul_le_mul_right d h
  have above : n / d + 1 ≤ m → (n / d + 1) * d ≤ m * d := fun h => Nat.mul_le_mul_right d h
  have next : (n / d + 1) * d = n / d * d + d := Nat.succ_mul _ _
  have tie : (n / d + n / d % 2) * d = n / d * d ∨ (n / d + n / d % 2) * d = n / d * d + d := by
    rcases Nat.mod_two_eq_zero_or_one (n / d) with even | odd
    · exact .inl (by rw [even, Nat.add_zero])
    · exact .inr (by rw [odd, next])
  rw [Nat.mul_comm] at split
  unfold roundHalfEven distance
  dsimp only
  rcases Nat.lt_or_ge (n / d) m with more | less
  · specialize above more
    split
    · omega
    · split <;> omega
  · specialize below less
    split
    · omega
    · split <;> omega

theorem roundHalfEven_le (n d : Nat) : roundHalfEven n d ≤ n / d + 1 := by
  unfold roundHalfEven
  dsimp only
  split
  · omega
  · split <;> omega

/-! ## The spacing -/

theorem spacing_pos (units : Nat) : 0 < spacing units := Nat.pow_pos (by decide)

theorem lt_wholeLimit_mul_spacing (units : Nat) : units < wholeLimit * spacing units := by
  have upper : units < Nat.pow 2 (units.log2 + 1) := Nat.lt_log2_self
  have mono : Nat.pow 2 (units.log2 + 1) ≤ Nat.pow 2 (53 + (units.log2 - 52)) :=
    Nat.pow_le_pow_right (by decide) (by omega)
  have split : Nat.pow 2 (53 + (units.log2 - 52)) = wholeLimit * spacing units := Nat.pow_add 2 _ _
  omega

/-- A representable number that is no multiple of the spacing around `units` lies below all
numbers with this spacing. -/
theorem spacing_dvd_or_le {other : Nat} (units : Nat) (h : Representable other) :
    spacing units ∣ other ∨ ∃ b, spacing units ∣ b ∧ other ≤ b ∧ b ≤ units := by
  obtain ⟨significand, exponent, bound, rfl⟩ := h
  rcases Nat.lt_or_ge exponent (units.log2 - 52) with fine | coarse
  · right
    have nonzero : units ≠ 0 := by
      rintro rfl
      simp at fine
    refine ⟨Nat.pow 2 units.log2, Nat.pow_dvd_pow 2 (by omega), ?_, Nat.log2_self_le nonzero⟩
    calc significand * Nat.pow 2 exponent
        ≤ wholeLimit * Nat.pow 2 exponent := Nat.mul_le_mul_right _ bound
      _ = Nat.pow 2 (53 + exponent) := (Nat.pow_add 2 53 exponent).symm
      _ ≤ Nat.pow 2 units.log2 := Nat.pow_le_pow_right (by decide) (by omega)
  · exact .inl (Nat.dvd_mul_left_of_dvd (Nat.pow_dvd_pow 2 coarse) _)

/-! ## Rounding -/

/-- `units` has 53 significant bits, and no such number is nearer to the quotient of `n` and `d`. -/
structure Nearest (n d units : Nat) : Prop where
  representable : Representable units
  distance_le : ∀ other, Representable other → distance (units * d) n ≤ distance (other * d) n

/-- What is left of a number with unbounded exponents: numbers that are too large are infinite. -/
def ofUnits (units : Nat) : Binary64 := if units < limit then .finite units else .infinite

/-- Below the limit a number is finite. -/
theorem ofUnits_of_lt {units : Nat} (small : units < limit) : ofUnits units = .finite units :=
  if_pos small

theorem ofUnits_of_le {units : Nat} (large : limit ≤ units) : ofUnits units = .infinite :=
  if_neg (Nat.not_lt.mpr large)

/-- A rounded quotient is a nearest number of 53 significant bits. -/
theorem round_nearest (n : Nat) {d : Nat} (pos : 0 < d) :
    ∃ units, round n d = ofUnits units ∧ Nearest n d units := by
  have step := spacing_pos (n / d)
  have grid : 0 < d * spacing (n / d) := Nat.mul_pos pos step
  have regroup (m : Nat) : m * spacing (n / d) * d = m * (d * spacing (n / d)) := by
    rw [Nat.mul_assoc, Nat.mul_comm (spacing (n / d))]
  refine ⟨roundHalfEven n (d * spacing (n / d)) * spacing (n / d), rfl, ⟨_, _, ?_, rfl⟩, ?_⟩
  · have short : n / (d * spacing (n / d)) < wholeLimit := by
      rw [← Nat.div_div_eq_div_mul, Nat.div_lt_iff_lt_mul step]
      exact lt_wholeLimit_mul_spacing _
    exact Nat.le_trans (roundHalfEven_le _ _) short
  · intro other representable
    rw [regroup]
    rcases spacing_dvd_or_le (n / d) representable with ⟨m, rfl⟩ | ⟨_, ⟨m, rfl⟩, above, below⟩
    · rw [Nat.mul_comm (spacing (n / d)), regroup]
      exact distance_roundHalfEven_le grid m
    · -- the smallest number with this spacing lies between the other number and the quotient
      have between : other * d ≤ m * (d * spacing (n / d)) ∧ m * (d * spacing (n / d)) ≤ n := by
        rw [← regroup, Nat.mul_comm m]
        exact ⟨Nat.mul_le_mul_right d above, (Nat.le_div_iff_mul_le pos).mp below⟩
      have nearest := distance_roundHalfEven_le (n := n) grid m
      unfold distance at nearest ⊢
      omega

theorem distance_mul (a b d : Nat) : distance (a * d) (b * d) = distance a b * d := by
  unfold distance
  rw [Nat.add_mul, Nat.sub_mul, Nat.sub_mul]

section Nearest

variable {units n d : Nat}

/-- No number of 53 significant bits is nearer to a whole quotient. -/
theorem Nearest.distance_whole_le {k other : Nat} (h : Nearest (k * d) d units) (pos : 0 < d)
    (representable : Representable other) : distance units k ≤ distance other k := by
  have le := h.distance_le other representable
  rw [distance_mul, distance_mul] at le
  exact Nat.le_of_mul_le_mul_right le pos

/-- A number that can be represented is rounded to itself. -/
theorem Nearest.eq_of_representable {k : Nat} (h : Nearest (k * d) d units) (pos : 0 < d)
    (representable : Representable k) : units = k := by
  have le := h.distance_whole_le pos representable
  unfold distance at le
  omega

/-- Rounding does not step over a number that can be represented. -/
theorem Nearest.le_units {least : Nat} (h : Nearest n d units) (pos : 0 < d)
    (representable : Representable least) (le : least * d ≤ n) : least ≤ units := by
  have near := h.distance_le least representable
  rcases Nat.lt_or_ge units least with less | ge
  · have below : units * d < least * d := Nat.mul_lt_mul_of_pos_right less pos
    unfold distance at near
    omega
  · exact ge

end Nearest

/-- A representable quotient is kept. -/
theorem round_exact {units d : Nat} (representable : Representable units) (pos : 0 < d)
    (small : units < limit) : round (units * d) d = .finite units := by
  obtain ⟨found, eq, nearest⟩ := round_nearest (units * d) pos
  rw [eq, nearest.eq_of_representable pos representable, ofUnits_of_lt small]

def AtLeast (x : Binary64) (units : Nat) : Prop := ∀ a, x = .finite a → units ≤ a

/-- A quotient does not fall below a representable number. -/
theorem atLeast_round {units n d : Nat} (representable : Representable units) (pos : 0 < d)
    (le : units * d ≤ n) : (round n d).AtLeast units := by
  obtain ⟨found, eq, nearest⟩ := round_nearest n pos
  intro a finite
  have kept : found = a := by
    rw [eq, ofUnits] at finite
    split at finite
    · simpa using finite
    · cases finite
  subst kept
  exact nearest.le_units pos representable le

/-! ## Whole numbers -/

/-- `x` is as good as the whole number `n`: exact unless `n` is too large, and then it is too large
as well. -/
structure Counts (x : Binary64) (n : Nat) : Prop where
  exact : n ≤ wholeLimit → x = .finite (n * unitsOfOne)
  bound : x.AtLeast (min n wholeLimit * unitsOfOne)

/-- One and the limit are powers of two; the exponents are too large to compute with. -/
theorem exists_exponent :
    ∃ exponent, unitsOfOne = Nat.pow 2 exponent ∧ limit = Nat.pow 2 (1024 + exponent) :=
  ⟨1074, rfl, rfl⟩

theorem unitsOfOne_pos : 0 < unitsOfOne := by
  obtain ⟨exponent, one, -⟩ := exists_exponent
  rw [one]
  exact Nat.pow_pos (by decide)

/-- Small whole numbers can be represented. -/
theorem representable_whole {n : Nat} (small : n ≤ wholeLimit) :
    Representable (n * unitsOfOne) := by
  obtain ⟨exponent, one, -⟩ := exists_exponent
  exact ⟨n, exponent, small, by rw [one]⟩

theorem whole_lt_limit {n : Nat} (small : n ≤ wholeLimit) : n * unitsOfOne < limit := by
  obtain ⟨exponent, one, large⟩ := exists_exponent
  rw [one, large]
  calc n * Nat.pow 2 exponent
      ≤ wholeLimit * Nat.pow 2 exponent := Nat.mul_le_mul_right _ small
    _ = Nat.pow 2 (53 + exponent) := (Nat.pow_add 2 53 exponent).symm
    _ < Nat.pow 2 (1024 + exponent) := Nat.pow_lt_pow_right (by decide) (by omega)

/-- A rounded quotient counts `k` if it is `k` or, should `k` be too large, not too small. -/
theorem counts_round {k n d : Nat} (pos : 0 < d) (exact : k ≤ wholeLimit → n = k * unitsOfOne * d)
    (bound : min k wholeLimit * unitsOfOne * d ≤ n) : (round n d).Counts k := by
  refine ⟨fun small => ?_, atLeast_round (representable_whole (Nat.min_le_right _ _)) pos bound⟩
  obtain rfl := exact small
  exact round_exact (representable_whole small) pos (whole_lt_limit small)

/-- Whole numbers are converted as well as the format allows. -/
theorem counts_ofNat (n : Nat) : (ofNat n).Counts n := by
  rw [ofNat, ofRatio]
  refine counts_round Nat.one_pos (fun _ => (Nat.mul_one _).symm) ?_
  rw [Nat.mul_one]
  exact Nat.mul_le_mul_right _ (Nat.min_le_left _ _)

/-- Infinity counts only what is too large. -/
theorem Counts.lt_of_infinite {n : Nat} (h : Counts .infinite n) : wholeLimit < n := by
  rcases Nat.lt_or_ge wholeLimit n with large | small
  · exact large
  · cases h.exact small

theorem counts_infinite {n : Nat} (large : wholeLimit < n) : Counts .infinite n where
  exact small := by omega
  bound a finite := by cases finite

theorem add_finite (a b : Nat) : (finite a).add (.finite b) = round (a + b) 1 := rfl

theorem mul_finite (a b : Nat) : (finite a).mul (.finite b) = round (a * b) unitsOfOne := rfl

/-- A sum counts what its parts count together. -/
theorem Counts.add {x y : Binary64} {a b : Nat} (hx : x.Counts a) (hy : y.Counts b) :
    (x.add y).Counts (a + b) := by
  cases x with
  | infinite => exact counts_infinite (Nat.lt_add_right _ hx.lt_of_infinite)
  | finite u =>
    cases y with
    | infinite => exact counts_infinite (Nat.lt_add_left _ hy.lt_of_infinite)
    | finite v =>
      rw [add_finite]
      refine counts_round Nat.one_pos (fun small => ?_) ?_
      · have left := hx.exact (by omega)
        have right := hy.exact (by omega)
        simp only [finite.injEq] at left right
        rw [left, right, Nat.mul_one, Nat.add_mul]
      · calc min (a + b) wholeLimit * unitsOfOne * 1
            ≤ (min a wholeLimit + min b wholeLimit) * unitsOfOne := by
              rw [Nat.mul_one]
              exact Nat.mul_le_mul_right _ (by omega)
          _ = min a wholeLimit * unitsOfOne + min b wholeLimit * unitsOfOne := Nat.add_mul _ _ _
          _ ≤ u + v := Nat.add_le_add (hx.bound u rfl) (hy.bound v rfl)

/-- The product with a whole number that is neither zero nor too large. -/
theorem Counts.mul {x y : Binary64} {a b : Nat} (hx : x.Counts a) (hy : y.Counts b) (pos : 0 < b)
    (small : b ≤ wholeLimit) : (x.mul y).Counts (a * b) := by
  have grows : a ≤ a * b := Nat.le_mul_of_pos_right a pos
  obtain rfl := hy.exact small
  cases x with
  | infinite => exact counts_infinite (Nat.lt_of_lt_of_le hx.lt_of_infinite grows)
  | finite u =>
    have regroup (c : Nat) :
        c * unitsOfOne * (b * unitsOfOne) = c * b * unitsOfOne * unitsOfOne := by
      rw [← Nat.mul_assoc, Nat.mul_right_comm c]
    rw [mul_finite]
    refine counts_round unitsOfOne_pos (fun fits => ?_) ?_
    · have left := hx.exact (Nat.le_trans grows fits)
      simp only [finite.injEq] at left
      rw [left, regroup]
    · have least : min (a * b) wholeLimit ≤ min a wholeLimit * b := by
        rcases Nat.le_total a wholeLimit with fits | large
        · rw [Nat.min_eq_left fits]
          exact Nat.min_le_left _ _
        · rw [Nat.min_eq_right large]
          exact Nat.le_trans (Nat.min_le_right _ _) (Nat.le_mul_of_pos_right _ pos)
      calc min (a * b) wholeLimit * unitsOfOne * unitsOfOne
          ≤ min a wholeLimit * b * unitsOfOne * unitsOfOne :=
            Nat.mul_le_mul_right _ (Nat.mul_le_mul_right _ least)
        _ = min a wholeLimit * unitsOfOne * (b * unitsOfOne) := (regroup _).symm
        _ ≤ u * (b * unitsOfOne) := Nat.mul_le_mul_right _ (hx.bound u rfl)

/-! ## Back to whole numbers -/

theorem le_toNat {a n : Nat} (h : n * unitsOfOne ≤ a) : n ≤ (finite a).toNat := by
  have pos := unitsOfOne_pos
  rw [toNat, Nat.le_div_iff_mul_le (by omega), Nat.mul_left_comm]
  omega

/-- A whole number is found again. -/
theorem toNat_whole (n : Nat) : (finite (n * unitsOfOne)).toNat = n := by
  have pos := unitsOfOne_pos
  have next : (n + 1) * (2 * unitsOfOne) = 2 * (n * unitsOfOne) + 2 * unitsOfOne := by
    rw [Nat.succ_mul, Nat.mul_left_comm]
  refine Nat.le_antisymm (Nat.le_of_lt_succ ?_) (le_toNat (Nat.le_refl _))
  rw [toNat, Nat.div_lt_iff_lt_mul (by omega), Nat.succ_eq_add_one, next]
  omega

end RoomAudio.Binary64
