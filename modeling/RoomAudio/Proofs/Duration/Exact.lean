import RoomAudio.Proofs.Binary64
import RoomAudio.Proofs.Duration.Grammar
import RoomAudio.Proofs.Routine.Validity
import RoomAudio.Routine.Resolution

/-!
# Timeouts in whole numbers

Durations are added up in binary64 arithmetic. As long as the numbers in front of the units are
whole ones, that loses nothing up to `2 ^ 53` nanoseconds, more than a hundred days, however many
segments and digits there are; and what is longer than that is never taken for something shorter.
Timeouts are at most ten minutes. So those in whole numbers are judged and measured exactly.

## Main definitions

* `Duration.wholeNanos` — the exact sum of segments in nanoseconds.
* `Duration.counts_total` — the rounded sum is as good as the exact one.
* `whole_timeouts_exact` — which timeouts are accepted and what they are resolved to.
-/

namespace RoomAudio

open Binary64 (Counts wholeLimit unitsOfOne counts_ofNat)

namespace Duration

/-- The nanoseconds of segments, without what stands behind a point. -/
def wholeNanos : List Segment → Nat
  | [] => 0
  | s :: segments => Text.valueOfDigits s.whole * s.unit.nanos + wholeNanos segments

/-! ## The sum -/

theorem TimeUnit.nanos_bounds (unit : TimeUnit) : 0 < unit.nanos ∧ unit.nanos ≤ wholeLimit := by
  cases unit <;> decide

theorem Segment.amount_whole {s : Segment} (whole : s.fraction = []) :
    s.amount = Binary64.ofNat (Text.valueOfDigits s.whole) := by
  rw [Segment.amount, whole, List.append_nil]
  rfl

/-- A segment without a point has as many nanoseconds as it says. -/
theorem Segment.counts_nanos {s : Segment} (whole : s.fraction = []) :
    s.nanos.Counts (Text.valueOfDigits s.whole * s.unit.nanos) := by
  obtain ⟨pos, small⟩ := s.unit.nanos_bounds
  rw [Segment.nanos, s.amount_whole whole]
  exact (counts_ofNat _).mul (counts_ofNat _) pos small

/-- Adding segments to what has been added up so far. -/
theorem counts_foldl {segments : List Segment} (whole : ∀ s ∈ segments, s.fraction = [])
    {x : Binary64} {n : Nat} (h : x.Counts n) :
    (segments.foldl (fun sum s => sum.add s.nanos) x).Counts (n + wholeNanos segments) := by
  induction segments generalizing x n with
  | nil => exact h
  | cons s segments ih =>
    have next := ih (fun s' mem => whole s' (by simp [mem]))
      (h.add (Segment.counts_nanos (whole s (by simp))))
    rw [wholeNanos, ← Nat.add_assoc]
    exact next

/-- The sum of such segments is the sum of whole numbers. -/
theorem counts_total {segments : List Segment} (whole : ∀ s ∈ segments, s.fraction = []) :
    (total segments).Counts (wholeNanos segments) := by
  have zero : Counts (.finite 0) 0 := ⟨fun _ => by rw [Nat.zero_mul], fun a h => by simp⟩
  have sum := counts_foldl whole zero
  rwa [Nat.zero_add] at sum

/-! ## The nanoseconds -/

section OfTotal

variable {raw : String} {sum : Binary64} {n : Nat}

/-- The longest duration is rounded up. -/
theorem ofNat_maxNanos : Binary64.ofNat maxNanos = .finite ((maxNanos + 1) * unitsOfOne) := by
  decide +kernel

/-- Sums that are not too large are kept. -/
theorem ofTotal_exact (h : sum.Counts n) (small : n ≤ wholeLimit) : ofTotal raw sum = .ok n := by
  have below : n ≤ maxNanos := Nat.le_trans small (by decide)
  have kept : ¬(Binary64.finite (n * unitsOfOne)).exceeds (Binary64.ofNat maxNanos) = true := by
    rw [ofNat_maxNanos, Binary64.exceeds, decide_eq_true_iff, Nat.not_lt]
    exact Nat.mul_le_mul_right _ (Nat.le_succ_of_le below)
  rw [h.exact small, ofTotal, if_neg kept, Binary64.toNat_whole, Nat.min_eq_left below]

/-- Sums that are too large are refused or remain too large. -/
theorem ofTotal_large {k : Nat} (h : sum.Counts n) (large : wholeLimit ≤ n)
    (ok : ofTotal raw sum = .ok k) : wholeLimit ≤ k := by
  rw [ofTotal, ofNat_maxNanos] at ok
  cases sum with
  | infinite => cases ok
  | finite a =>
    split at ok
    · cases ok
    · cases ok
      have enough := h.bound a rfl
      rw [Nat.min_eq_right large] at enough
      exact Nat.le_min.mpr ⟨Binary64.le_toNat enough, by decide⟩

end OfTotal

end Duration

/-! ## Timeouts -/

section Timeout

open Duration

variable {raw : String} {segments : List Segment}

/-- The timeout of a text is the sum of its segments, within the bounds. -/
theorem parseWaitTimeout_written (nonempty : segments ≠ [])
    (written : WrittenAs segments (Text.trimChars raw.toList))
    (whole : ∀ s ∈ segments, s.fraction = []) (n : Nat) :
    parseWaitTimeout raw = .ok n ↔
      n = wholeNanos segments ∧ minWaitTimeout ≤ wholeNanos segments ∧
        wholeNanos segments ≤ maxWaitTimeout := by
  have counts := counts_total whole
  have apart : maxWaitTimeout < wholeLimit := by decide
  rw [parseWaitTimeout_eq_ok_iff, parse_written nonempty written]
  rcases Nat.lt_or_ge wholeLimit (wholeNanos segments) with large | small
  · constructor
    · rintro ⟨ok, -, short⟩
      have := ofTotal_large counts (Nat.le_of_lt large) ok
      omega
    · rintro ⟨-, -, short⟩
      omega
  · rw [ofTotal_exact counts small]
    grind

/-- A timeout in whole numbers is accepted exactly if it is between one second and ten minutes,
and then nothing of it is lost. -/
theorem whole_timeouts_exact (nonempty : segments ≠ [])
    (written : WrittenAs segments (Text.trimChars raw.toList))
    (whole : ∀ s ∈ segments, s.fraction = []) :
    (∀ n, parseWaitTimeout raw = .ok n ↔
      n = wholeNanos segments ∧ 1000000000 ≤ wholeNanos segments ∧
        wholeNanos segments ≤ 600000000000) ∧
    (1000000000 ≤ wholeNanos segments → wholeNanos segments ≤ 600000000000 →
      ∀ state known, PlaybackState.ofName? state = some known → ∀ defaults path,
        (Step.wait state raw).resolve defaults path =
          .ok (.wait known (Text.trim raw) (wholeNanos segments / 1000000))) := by
  have accepted := parseWaitTimeout_written nonempty written whole
  refine ⟨accepted, fun long short state known named defaults path => ?_⟩
  have parsed := (accepted _).mpr ⟨rfl, long, short⟩
  simp only [Step.resolve, named, parsed]

/-- Ten minutes, in two units, are not too long. -/
theorem whole_timeouts_exact_ten_minutes :
    parseWaitTimeout " 599s1000000us " = .ok 600000000000 ∧
    (Step.wait "Playing" " 599s1000000us ").resolve {} [] =
      .ok (.wait .playing (Text.trim " 599s1000000us ") 600000) := by
  have written : WrittenAs [⟨"599".toList, [], .second⟩, ⟨"1000000".toList, [], .microsecond⟩]
      (Text.trimChars " 599s1000000us ".toList) := segments?_eq_some_iff.mp (by decide +kernel)
  have exact := whole_timeouts_exact (by simp) written (by simp)
  exact ⟨(exact.1 _).mpr (by decide +kernel),
    exact.2 (by decide +kernel) (by decide +kernel) _ _ (by decide +kernel) _ _⟩

end Timeout

end RoomAudio
