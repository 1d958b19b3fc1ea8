import RoomAudio.Proofs.Binary64.Accuracy
import RoomAudio.Proofs.Duration.Exact

/-!
# The longest durations

Durations that are too long to be counted are refused. The limit is compared in binary64
arithmetic, where `2 ^ 64 - 1` nanoseconds, the most that can be counted, are rounded to `2 ^ 64`.
So a sum of exactly `2 ^ 64` is not refused but taken for the longest duration. Sums are rounded on
their way to the limit, so they may also fall short of it. What is farther from `2 ^ 64` than the
roundings reach is judged rightly, and so are all durations of a reasonable number of segments in
milliseconds and longer units.

## Main definitions

* `Duration.approximates_total` — the rounded sum and the exact one.
* `Duration.ofTotal_whole` — what is made of a rounded sum.
* `Duration.refused_beyond_rounding` — which durations are refused.
-/

namespace RoomAudio.Duration

open Binary64 (Approximates Close wholeLimit unitsOfOne)

variable {segments : List Segment}

/-! ## The sum -/

/-- The number is rounded, and so is the product with its unit. -/
theorem Segment.approximates_nanos {s : Segment} (whole : s.fraction = []) :
    s.nanos.Approximates 2 (Text.valueOfDigits s.whole * s.unit.nanos) := by
  obtain ⟨pos, small⟩ := s.unit.nanos_bounds
  rw [Segment.nanos, s.amount_whole whole]
  exact (Binary64.approximates_ofNat _).mul pos small

/-- Every segment adds a rounding. -/
theorem approximates_foldl (whole : ∀ s ∈ segments, s.fraction = []) {x : Binary64} {r n : Nat}
    (h : x.Approximates r n) (enough : 2 ≤ r) :
    (segments.foldl (fun sum s => sum.add s.nanos) x).Approximates (r + segments.length)
      (n + wholeNanos segments) := by
  induction segments generalizing x r n with
  | nil => exact h
  | cons s segments ih =>
    have first := h.add (s.approximates_nanos (whole s (by simp))) enough
    have others := ih (fun s' mem => whole s' (by simp [mem])) first (by omega)
    rwa [Nat.add_right_comm, Nat.add_assoc n] at others

/-- Every segment of a sum costs one more rounding. -/
theorem approximates_total (whole : ∀ s ∈ segments, s.fraction = []) :
    (total segments).Approximates (segments.length + 2) (wholeNanos segments) := by
  have sum := approximates_foldl whole (Binary64.approximates_zero 2) (Nat.le_refl 2)
  rwa [Nat.zero_add, Nat.add_comm] at sum

/-! ## The limit -/

/-- The limit is far below what is infinite. -/
theorem maxNanos_lt_limit : (maxNanos + 1) * unitsOfOne < Binary64.limit := by
  decide +kernel

/-- Rounded sums above `2 ^ 64` are refused, and `2 ^ 64` itself becomes the longest duration. -/
theorem ofTotal_whole (raw : String) (sum : Nat) :
    ofTotal raw (Binary64.ofUnits (sum * unitsOfOne)) =
      if maxNanos + 1 < sum then .error (.outOfRange raw) else .ok (min sum maxNanos) := by
  have refused : (Binary64.ofUnits (sum * unitsOfOne)).exceeds (Binary64.ofNat maxNanos) = true ↔
      maxNanos + 1 < sum := by
    rw [ofNat_maxNanos, Binary64.exceeds_ofUnits maxNanos_lt_limit,
      Nat.mul_lt_mul_right Binary64.unitsOfOne_pos]
  rw [ofTotal]
  by_cases large : maxNanos + 1 < sum
  · rw [if_pos (refused.mpr large), if_pos large]
  · have finite : sum * unitsOfOne < Binary64.limit :=
      Nat.lt_of_le_of_lt (Nat.mul_le_mul_right _ (Nat.not_lt.mp large)) maxNanos_lt_limit
    rw [if_neg (mt refused.mp large), if_neg large, Binary64.ofUnits_of_lt finite,
      Binary64.toNat_whole]

/-! ## Longer units -/

theorem dvd_wholeNanos {d : Nat} (h : ∀ s ∈ segments, d ∣ s.unit.nanos) :
    d ∣ wholeNanos segments := by
  induction segments with
  | nil => exact Nat.dvd_zero d
  | cons s segments ih =>
    exact Nat.dvd_add (Nat.dvd_mul_left_of_dvd (h s (by simp)) _)
      (ih fun s' mem => h s' (by simp [mem]))

/-- Two hundred segments do not lose the distance between `2 ^ 64` and the next milliseconds. -/
theorem apart_of_milliseconds {n : Nat} (h : TimeUnit.millisecond.nanos ∣ n) :
    ¬Close 202 n (maxNanos + 1) := by
  intro close
  obtain ⟨millis, rfl⟩ := h
  rcases Nat.lt_or_ge 18446744073709 millis with above | below
  · have far : (maxNanos + 1) * (wholeLimit + 1) ^ 202 <
        TimeUnit.millisecond.nanos * 18446744073710 * wholeLimit ^ 202 := by decide +kernel
    have le := Nat.mul_le_mul_right (wholeLimit ^ 202)
      (Nat.mul_le_mul_left TimeUnit.millisecond.nanos above)
    exact Nat.not_le.mpr far (Nat.le_trans le close.le)
  · have far : TimeUnit.millisecond.nanos * 18446744073709 * (wholeLimit + 1) ^ 202 <
        (maxNanos + 1) * wholeLimit ^ 202 := by decide +kernel
    have le := Nat.mul_le_mul_right ((wholeLimit + 1) ^ 202)
      (Nat.mul_le_mul_left TimeUnit.millisecond.nanos below)
    exact Nat.not_le.mpr far (Nat.le_trans close.ge le)

/-! ## What is refused -/

section Refused

variable {raw : String}

/-- The answer to a duration in whole numbers, by the rounded sum. -/
theorem parse_whole (nonempty : segments ≠ [])
    (written : WrittenAs segments (Text.trimChars raw.toList))
    (whole : ∀ s ∈ segments, s.fraction = []) :
    ∃ sum, total segments = Binary64.ofUnits (sum * unitsOfOne) ∧
      Close (segments.length + 2) sum (wholeNanos segments) ∧
      parse raw =
        if maxNanos + 1 < sum then .error (.outOfRange raw) else .ok (min sum maxNanos) := by
  obtain ⟨sum, eq, close⟩ := approximates_total whole
  exact ⟨sum, eq, close, by rw [parse_written nonempty written, eq, ofTotal_whole]⟩

/-- A sum that roundings cannot bring down to the limit is refused. -/
theorem parse_apart (nonempty : segments ≠ [])
    (written : WrittenAs segments (Text.trimChars raw.toList))
    (whole : ∀ s ∈ segments, s.fraction = [])
    (apart : ¬Close (segments.length + 2) (wholeNanos segments) (maxNanos + 1)) :
    parse raw = .error (.outOfRange raw) ↔ maxNanos < wholeNanos segments := by
  obtain ⟨sum, -, close, answer⟩ := parse_whole nonempty written whole
  have refused : parse raw = .error (.outOfRange raw) ↔ maxNanos + 1 < sum := by
    rw [answer]
    split <;> simp_all
  have other : wholeNanos segments ≠ maxNanos + 1 := by
    intro same
    exact apart (same ▸ .refl _ _)
  rw [refused, close.lt_iff apart]
  omega

/-- A duration in whole numbers is judged by its sum in nanoseconds, rounded twice for every number
and once for every segment: the sum is refused above `2 ^ 64`, where `2 ^ 64` itself passes for the
longest duration. So the answer is right unless the exact sum is as close to `2 ^ 64` as rounding
can bring it. It is right for all durations of at most two hundred segments in milliseconds and
longer units. -/
theorem refused_beyond_rounding (nonempty : segments ≠ [])
    (written : WrittenAs segments (Text.trimChars raw.toList))
    (whole : ∀ s ∈ segments, s.fraction = []) :
    (∃ sum, total segments = Binary64.ofUnits (sum * unitsOfOne) ∧
      Close (segments.length + 2) sum (wholeNanos segments) ∧
      parse raw =
        if maxNanos + 1 < sum then .error (.outOfRange raw) else .ok (min sum maxNanos)) ∧
    (¬Close (segments.length + 2) (wholeNanos segments) (maxNanos + 1) →
      (parse raw = .error (.outOfRange raw) ↔ maxNanos < wholeNanos segments)) ∧
    ((∀ s ∈ segments, TimeUnit.millisecond.nanos ∣ s.unit.nanos) → segments.length ≤ 200 →
      (parse raw = .error (.outOfRange raw) ↔ maxNanos < wholeNanos segments)) := by
  refine ⟨parse_whole nonempty written whole, parse_apart nonempty written whole,
    fun units short => ?_⟩
  refine parse_apart nonempty written whole fun close => ?_
  exact apart_of_milliseconds (dvd_wholeNanos units) (close.mono (by omega))

/-- The last full minute that can be counted, and the next one. -/
theorem refused_beyond_rounding_minutes :
    parse "5124095h34m" ≠ .error (.outOfRange "5124095h34m") ∧
      parse " 5124095h35m " = .error (.outOfRange " 5124095h35m ") := by
  have before : WrittenAs [⟨"5124095".toList, [], .hour⟩, ⟨"34".toList, [], .minute⟩]
      (Text.trimChars "5124095h34m".toList) := segments?_eq_some_iff.mp (by decide +kernel)
  have behind : WrittenAs [⟨"5124095".toList, [], .hour⟩, ⟨"35".toList, [], .minute⟩]
      (Text.trimChars " 5124095h35m ".toList) := segments?_eq_some_iff.mp (by decide +kernel)
  have counted := (refused_beyond_rounding (by simp) before (by simp)).2.2
  have refused := (refused_beyond_rounding (by simp) behind (by simp)).2.2
  exact ⟨mt (counted (by decide +kernel) (by decide)).mp (by decide +kernel),
    (refused (by decide +kernel) (by decide)).mpr (by decide +kernel)⟩

/-- The first duration that is too long is not refused. It passes for the longest one. -/
theorem limit_taken_for_maximum :
    segments? (Text.trimChars "18446744073709551616ns".toList) =
        some [⟨"18446744073709551616".toList, [], .nanosecond⟩] ∧
      maxNanos < wholeNanos [⟨"18446744073709551616".toList, [], .nanosecond⟩] ∧
      parse "18446744073709551616ns" = .ok maxNanos := by
  decide +kernel

/-- Segments that are lost one by one in front of the limit. -/
example : parse "18446744073709549568ns1000ns1000ns1000ns" = .ok 18446744073709549568 := by
  decide +kernel

end Refused

end RoomAudio.Duration
