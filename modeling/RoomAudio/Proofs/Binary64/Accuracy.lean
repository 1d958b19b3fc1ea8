import Mathlib.Algebra.Order.Ring.Nat
import RoomAudio.Proofs.Binary64

/-!
# What rounding makes of whole numbers

Every rounding changes a whole number by at most its `2 ^ 53`rd part. The changes of several
roundings are multiplied, so the number that remains is told by how many roundings it has gone
through, whichever operations they belong to. Infinity stands for all numbers that are too large.

## Main definitions

* `Binary64.Close` — what a given number of roundings may make of a whole number.
* `Binary64.Close.lt_iff` — roundings keep the order of numbers that are farther apart.
* `Binary64.Approximates` — a computed number and the exact one.
* `Binary64.Approximates.add`, `Binary64.Approximates.mul` — one more rounding.
-/

namespace RoomAudio.Binary64

/-- The whole numbers `a` and `b` are the same up to `r` roundings: neither of them exceeds the
other one `r` times by its `2 ^ 53`rd part. -/
@[mk_iff]
structure Close (r a b : Nat) : Prop where
  le : a * wholeLimit ^ r ≤ b * (wholeLimit + 1) ^ r
  ge : b * wholeLimit ^ r ≤ a * (wholeLimit + 1) ^ r

/-! ## Laws of closeness -/

namespace Close

variable {r s a b c limit : Nat}

theorem pow_le_pow (r : Nat) : wholeLimit ^ r ≤ (wholeLimit + 1) ^ r :=
  Nat.pow_le_pow_left (Nat.le_succ _) r

theorem refl (r a : Nat) : Close r a a :=
  ⟨Nat.mul_le_mul_left a (pow_le_pow r), Nat.mul_le_mul_left a (pow_le_pow r)⟩

/-- Two bounds for quotients are multiplied. -/
theorem mul_le_trans {x y x' y' : Nat} (h : a * x ≤ b * y) (h' : b * x' ≤ c * y') :
    a * (x' * x) ≤ c * (y' * y) := by
  calc a * (x' * x) = a * x * x' := by rw [Nat.mul_comm x', Nat.mul_assoc]
    _ ≤ b * y * x' := Nat.mul_le_mul_right _ h
    _ = b * x' * y := Nat.mul_right_comm _ _ _
    _ ≤ c * y' * y := Nat.mul_le_mul_right _ h'
    _ = c * (y' * y) := Nat.mul_assoc _ _ _

/-- The roundings of both steps add up. -/
theorem trans (h : Close r a b) (h' : Close s b c) : Close (s + r) a c := by
  have ge := mul_le_trans h'.ge h.ge
  rw [Nat.mul_comm (wholeLimit ^ r), Nat.mul_comm ((wholeLimit + 1) ^ r)] at ge
  rw [close_iff, pow_add, pow_add]
  exact ⟨mul_le_trans h.le h'.le, ge⟩

theorem mono (h : Close r a b) (le : r ≤ s) : Close s a b := by
  obtain ⟨more, rfl⟩ := Nat.exists_eq_add_of_le' le
  exact h.trans (refl more b)

/-- Sums of numbers that are close are close. -/
theorem add {a' b' : Nat} (h : Close r a b) (h' : Close r a' b') : Close r (a + a') (b + b') := by
  rw [close_iff]
  simp only [Nat.add_mul]
  exact ⟨Nat.add_le_add h.le h'.le, Nat.add_le_add h.ge h'.ge⟩

theorem mul_right_iff (pos : 0 < c) : Close r (a * c) (b * c) ↔ Close r a b := by
  simp only [close_iff, Nat.mul_right_comm _ c, Nat.mul_le_mul_right_iff pos]

/-- What is told from a limit by `r` roundings stays on its side of it. -/
theorem lt_iff (h : Close r a b) (apart : ¬Close r b limit) : limit < a ↔ limit < b := by
  have grows := pow_le_pow r
  rw [close_iff, not_and_or, Nat.not_le, Nat.not_le] at apart
  rcases apart with above | below
  · have left : limit < a := Nat.lt_of_mul_lt_mul_right (Nat.lt_of_lt_of_le above h.ge)
    have right : limit < b :=
      Nat.lt_of_mul_lt_mul_right (Nat.lt_of_le_of_lt (Nat.mul_le_mul_left limit grows) above)
    exact iff_of_true left right
  · have left : a < limit := Nat.lt_of_mul_lt_mul_right (Nat.lt_of_le_of_lt h.le below)
    have right : b < limit :=
      Nat.lt_of_mul_lt_mul_right (Nat.lt_of_le_of_lt (Nat.mul_le_mul_left b grows) below)
    exact iff_of_false (Nat.lt_asymm left) (Nat.lt_asymm right)

end Close

/-! ## One rounding -/

section Nearest

variable {k d units : Nat}

/-- The numbers of 53 significant bits that have the same spacing as `k`. -/
theorem representable_mul_spacing {m : Nat} (le : m ≤ wholeLimit) :
    Representable (m * spacing k) := ⟨m, k.log2 - 52, le, rfl⟩

/-- Rounding goes to one of the two neighbours, which are at most a spacing apart. -/
theorem Nearest.two_mul_distance_le (h : Nearest (k * d) d units) (pos : 0 < d) :
    2 * distance units k ≤ spacing k := by
  have step := spacing_pos k
  have small : k / spacing k < wholeLimit := by
    rw [Nat.div_lt_iff_lt_mul step]
    exact lt_wholeLimit_mul_spacing k
  have below := h.distance_whole_le pos (representable_mul_spacing (k := k) (Nat.le_of_lt small))
  have above := h.distance_whole_le pos (representable_mul_spacing (k := k) small)
  have split : k / spacing k * spacing k + k % spacing k = k := Nat.div_add_mod' k _
  have short := Nat.mod_lt k step
  rw [Nat.succ_eq_add_one, Nat.succ_mul] at above
  unfold distance at below above ⊢
  omega

/-- A large number has room for `2 ^ 52` times its spacing. -/
theorem half_wholeLimit_mul_spacing_le (large : wholeLimit ≤ k) :
    Nat.pow 2 52 * spacing k ≤ k := by
  have nonzero : k ≠ 0 := by
    rintro rfl
    exact absurd large (by decide)
  have bits : 53 ≤ k.log2 := (Nat.le_log2 nonzero).mpr large
  calc Nat.pow 2 52 * spacing k
      = Nat.pow 2 (52 + (k.log2 - 52)) := (Nat.pow_add 2 _ _).symm
    _ = Nat.pow 2 k.log2 := congrArg _ (by omega)
    _ ≤ k := Nat.log2_self_le nonzero

/-- One rounding makes a number that is close. -/
theorem Nearest.close (h : Nearest (k * d) d units) (pos : 0 < d) : Close 1 units k := by
  rcases Nat.lt_or_ge k wholeLimit with small | large
  · have representable : Representable k := ⟨k, 0, Nat.le_of_lt small, (Nat.mul_one k).symm⟩
    rw [h.eq_of_representable pos representable]
    exact .refl 1 k
  · -- both `k` and the rounded number are at least `2 ^ 52` spacings, and half a spacing is lost
    have room := half_wholeLimit_mul_spacing_le large
    have near := h.two_mul_distance_le pos
    have least := h.distance_whole_le pos
      (representable_mul_spacing (k := k) (m := Nat.pow 2 52) (by decide))
    have halves : wholeLimit = 2 * Nat.pow 2 52 := by decide
    have loss : distance units k * wholeLimit ≤ Nat.pow 2 52 * spacing k := by
      calc distance units k * wholeLimit
          = Nat.pow 2 52 * (2 * distance units k) := by
            rw [halves, Nat.mul_comm, Nat.mul_right_comm, Nat.mul_comm _ (Nat.pow 2 52)]
        _ ≤ Nat.pow 2 52 * spacing k := Nat.mul_le_mul_left _ near
    have sides : units ≤ k + distance units k ∧ k ≤ units + distance units k ∧
        Nat.pow 2 52 * spacing k ≤ units := by
      unfold distance at least ⊢
      omega
    obtain ⟨above, below, least⟩ := sides
    have up := Nat.mul_le_mul_right wholeLimit above
    have down := Nat.mul_le_mul_right wholeLimit below
    rw [Nat.add_mul] at up down
    rw [close_iff, pow_one, pow_one, Nat.mul_succ, Nat.mul_succ]
    omega

theorem Representable.spacing_dvd (h : Representable k) : spacing k ∣ k := by
  rcases spacing_dvd_or_le k h with dvd | ⟨b, dvd, above, below⟩
  · exact dvd
  · rwa [Nat.le_antisymm below above] at dvd

/-- From `2 ^ 53` on all numbers of 53 significant bits are whole. -/
theorem Representable.unitsOfOne_dvd (h : Representable k) (large : wholeLimit * unitsOfOne ≤ k) :
    unitsOfOne ∣ k := by
  obtain ⟨exponent, one, -⟩ := exists_exponent
  have floor : Nat.pow 2 (53 + exponent) ≤ k := by
    rw [one] at large
    exact Nat.le_trans (Nat.le_of_eq (Nat.pow_add 2 53 exponent)) large
  have nonzero : k ≠ 0 := by
    rintro rfl
    exact absurd floor (Nat.not_le.mpr (Nat.pow_pos (by decide)))
  have bits : 53 + exponent ≤ k.log2 := (Nat.le_log2 nonzero).mpr floor
  rw [one]
  exact Nat.dvd_trans (Nat.pow_dvd_pow 2 (by omega)) h.spacing_dvd

end Nearest

/-- The rounded value of a whole number is whole. -/
theorem exists_round_whole (k : Nat) {d : Nat} (pos : 0 < d) :
    ∃ m, round (k * unitsOfOne * d) d = ofUnits (m * unitsOfOne) ∧ Close 1 m k := by
  obtain ⟨units, eq, nearest⟩ := round_nearest (k * unitsOfOne * d) pos
  -- small numbers are kept, and what is large has no room for a fraction
  have whole : unitsOfOne ∣ units := by
    rcases Nat.le_total k wholeLimit with small | large
    · rw [nearest.eq_of_representable pos (representable_whole small)]
      exact Nat.dvd_mul_left _ _
    · refine nearest.representable.unitsOfOne_dvd ?_
      exact nearest.le_units pos (representable_whole (Nat.le_refl _))
        (Nat.mul_le_mul_right d (Nat.mul_le_mul_right unitsOfOne large))
  obtain ⟨m, same⟩ := exists_eq_mul_left_of_dvd whole
  have close := nearest.close pos
  rw [same] at eq close
  exact ⟨m, eq, (Close.mul_right_iff unitsOfOne_pos).mp close⟩

/-! ## Several roundings -/

/-- A sum is rounded once, and a sum with an infinite number is too large itself. -/
theorem exists_add_whole (a b : Nat) :
    ∃ m, (ofUnits (a * unitsOfOne)).add (ofUnits (b * unitsOfOne)) = ofUnits (m * unitsOfOne) ∧
      Close 1 m (a + b) := by
  have infinite {n : Nat} (large : limit ≤ n * unitsOfOne) (le : n ≤ a + b) :
      ofUnits ((a + b) * unitsOfOne) = .infinite :=
    ofUnits_of_le (Nat.le_trans large (Nat.mul_le_mul_right _ le))
  rcases Nat.lt_or_ge (a * unitsOfOne) limit with small | large
  · rcases Nat.lt_or_ge (b * unitsOfOne) limit with small' | large'
    · obtain ⟨m, eq, close⟩ := exists_round_whole (a + b) Nat.one_pos
      refine ⟨m, ?_, close⟩
      rw [ofUnits_of_lt small, ofUnits_of_lt small', add_finite, ← eq, Nat.mul_one, Nat.add_mul]
    · refine ⟨a + b, ?_, .refl 1 _⟩
      rw [ofUnits_of_lt small, ofUnits_of_le large', infinite large' (Nat.le_add_left b a)]
      rfl
  · refine ⟨a + b, ?_, .refl 1 _⟩
    rw [ofUnits_of_le large, infinite large (Nat.le_add_right a b)]
    rfl

/-- A product of whole numbers is rounded once. -/
theorem exists_mul_whole (a : Nat) {b : Nat} (pos : 0 < b) :
    ∃ m, (ofUnits (a * unitsOfOne)).mul (.finite (b * unitsOfOne)) = ofUnits (m * unitsOfOne) ∧
      Close 1 m (a * b) := by
  rcases Nat.lt_or_ge (a * unitsOfOne) limit with small | large
  · obtain ⟨m, eq, close⟩ := exists_round_whole (a * b) unitsOfOne_pos
    refine ⟨m, ?_, close⟩
    rw [ofUnits_of_lt small, mul_finite, ← eq, ← Nat.mul_assoc, Nat.mul_right_comm a]
  · have larger : a * unitsOfOne ≤ a * b * unitsOfOne :=
      Nat.mul_le_mul_right _ (Nat.le_mul_of_pos_right a pos)
    refine ⟨a * b, ?_, .refl 1 _⟩
    rw [ofUnits_of_le large, ofUnits_of_le (Nat.le_trans large larger)]
    rfl

/-- `x` is a whole number that at most `r` roundings have made of `n`. -/
def Approximates (x : Binary64) (r n : Nat) : Prop :=
  ∃ m, x = ofUnits (m * unitsOfOne) ∧ Close r m n

theorem approximates_zero (r : Nat) : Approximates (.finite 0) r 0 := by
  have zero : ofUnits (0 * unitsOfOne) = .finite 0 :=
    (ofUnits_of_lt (whole_lt_limit (Nat.zero_le _))).trans (congrArg finite (Nat.zero_mul _))
  exact ⟨0, zero.symm, .refl r 0⟩

theorem approximates_ofNat (n : Nat) : (ofNat n).Approximates 1 n := by
  obtain ⟨m, eq, close⟩ := exists_round_whole n Nat.one_pos
  exact ⟨m, by rw [← eq, Nat.mul_one]; rfl, close⟩

/-- Addition costs one rounding. -/
theorem Approximates.add {x y : Binary64} {r s a b : Nat} (hx : x.Approximates r a)
    (hy : y.Approximates s b) (le : s ≤ r) : (x.add y).Approximates (r + 1) (a + b) := by
  obtain ⟨m, same, close⟩ := hx
  obtain ⟨m', same', close'⟩ := hy
  obtain ⟨sum, eq, rounded⟩ := exists_add_whole m m'
  rw [same, same']
  exact ⟨sum, eq, rounded.trans (close.add (close'.mono le))⟩

/-- The product with a whole number that is neither zero nor rounded. -/
theorem Approximates.mul {x : Binary64} {r a b : Nat} (h : x.Approximates r a) (pos : 0 < b)
    (small : b ≤ wholeLimit) : (x.mul (ofNat b)).Approximates (r + 1) (a * b) := by
  obtain ⟨m, same, close⟩ := h
  obtain ⟨product, eq, rounded⟩ := exists_mul_whole m pos
  rw [same, (counts_ofNat b).exact small]
  exact ⟨product, eq, rounded.trans ((Close.mul_right_iff pos).mpr close)⟩

/-! ## Comparing -/

/-- Infinity exceeds whatever is finite, as the number that it stands for would. -/
theorem exceeds_ofUnits {units bound : Nat} (finite : bound < limit) :
    (ofUnits units).exceeds (.finite bound) = true ↔ bound < units := by
  rcases Nat.lt_or_ge units limit with small | large
  · rw [ofUnits_of_lt small]
    exact decide_eq_true_iff
  · rw [ofUnits_of_le large]
    exact iff_of_true rfl (Nat.lt_of_lt_of_le finite large)

end RoomAudio.Binary64
