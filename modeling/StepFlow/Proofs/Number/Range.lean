import Mathlib.Tactic.Ring
import StepFlow.Number.Nearest

/-! The range of doubles. An integer has a nearest double that is finite exactly when it is less
than half a step beyond the greatest one; at the half the tie goes to infinity, whose mantissa would
be the even one. -/
namespace StepFlow.Number

/-- The least magnitude that is too large for a double. -/
def rangeEnd : Nat := 2 ^ 1024 - 2 ^ 970

theorem twoTo_eq (k : Nat) : twoTo k = 2 ^ k := rfl

/-- The end of the range, and powers of two around it, in half steps of the greatest doubles. -/
theorem rangeEnd_eq : ∃ half, 0 < half ∧ rangeEnd = (2 ^ 54 - 1) * half ∧
    2 ^ 971 = 2 ^ 1 * half ∧ 2 ^ 1023 = 2 ^ 53 * half ∧ 2 ^ 1024 = 2 ^ 54 * half := by
  refine ⟨2 ^ 970, pow_pos (by decide) 970, ?_, ?_, ?_, ?_⟩
  · rw [rangeEnd, Nat.sub_mul, Nat.one_mul, ← Nat.pow_add]
  · rw [← Nat.pow_add]
  · rw [← Nat.pow_add]
  · rw [← Nat.pow_add]

theorem rangeEnd_pos : 0 < rangeEnd := by
  obtain ⟨half, hHalf, hEnd, -⟩ := rangeEnd_eq
  omega

/-- A quotient is rounded to itself or to the next integer. -/
theorem roundDiv_bounds (num den : Nat) :
    num / den ≤ roundDiv num den ∧ roundDiv num den ≤ num / den + 1 := by
  unfold roundDiv
  simp only
  split
  · omega
  · split
    · omega
    · omega

theorem roundDiv_one (num : Nat) : roundDiv num 1 = num := by
  simp [roundDiv, Nat.mod_one]

/-- A quotient is rounded to less than an even number exactly when it is more than a half below. -/
theorem roundDiv_lt_iff {num den k : Nat} (hDen : 0 < den) (hEven : k % 2 = 0) :
    roundDiv num den < k ↔ 2 * num + den < 2 * (k * den) := by
  obtain ⟨hAtLeast, hAtMost⟩ := roundDiv_bounds num den
  have hRest : num % den < den := Nat.mod_lt _ hDen
  have hNum : num = num / den * den + num % den := (Nat.div_add_mod' _ _).symm
  rcases Nat.lt_trichotomy (num / den + 1) k with hBelow | hAt | hAbove
  · have hGap : (num / den + 2) * den ≤ k * den := Nat.mul_le_mul_right _ hBelow
    rw [Nat.add_mul] at hGap
    constructor <;> intro <;> omega
  · -- just below an even number the quotient is odd, and a half goes up
    have hOdd : num / den % 2 = 1 := by omega
    have hTop : k * den = num / den * den + den := by rw [← hAt, Nat.succ_mul]
    have hRounded : roundDiv num den < k ↔ 2 * (num % den) < den := by
      unfold roundDiv
      simp only
      split
      · omega
      · split
        · omega
        · omega
    rw [hRounded, hTop]
    constructor <;> intro <;> omega
  · have hGap : k * den ≤ num / den * den := Nat.mul_le_mul_right _ (by omega)
    constructor <;> intro <;> omega

/-- The greatest power of two that is at most a positive integer. -/
theorem floorLog2_one {m : Nat} (hPos : m ≠ 0) : floorLog2 m 1 = m.log2 := by
  have hOne : Nat.log2 1 = 0 := rfl
  have hReached : twoTo m.log2 ≤ m := Nat.log2_self_le hPos
  unfold floorLog2
  simp [hOne, hReached]

/-- The bits of the double nearest to an integer of at least 53 bits. -/
theorem nearestBits_of_large {m : Nat} (hLarge : 52 ≤ m.log2) :
    nearestBits m 1 = (m.log2 + 1022) * 2 ^ 52 + roundDiv m (2 ^ (m.log2 - 52)) := by
  have hPos : m ≠ 0 := by
    rintro rfl
    exact absurd hLarge (by decide)
  have hStep : max ((m.log2 : Int) - 52) (-1074) = ((m.log2 - 52 : Nat) : Int) := by omega
  have hExponent : (((m.log2 - 52 : Nat) : Int) + 1074).toNat = m.log2 + 1022 := by omega
  unfold nearestBits
  simp only [floorLog2_one hPos, hStep, hExponent]
  simp [twoTo_eq]

/-- Integers of fewer bits are doubles themselves. -/
theorem nearestBits_of_small {m : Nat} (hPos : m ≠ 0) (hSmall : m.log2 < 52) :
    nearestBits m 1 = (m.log2 + 1022) * 2 ^ 52 + m * 2 ^ (52 - m.log2) := by
  have hStep : max ((m.log2 : Int) - 52) (-1074) = (m.log2 : Int) - 52 := by omega
  have hNegative : ¬ (0 : Int) ≤ (m.log2 : Int) - 52 := by omega
  have hShift : (-((m.log2 : Int) - 52)).toNat = 52 - m.log2 := by omega
  have hExponent : ((m.log2 : Int) - 52 + 1074).toNat = m.log2 + 1022 := by omega
  unfold nearestBits
  simp only [floorLog2_one hPos, hStep, hExponent, if_neg hNegative, hShift, roundDiv_one, twoTo_eq]

theorem infinityBits_eq : infinityBits = 2047 * 2 ^ 52 := rfl

/-- The quotient of an integer by the step of its doubles has 53 bits. -/
theorem mantissa_bounds {m : Nat} (hLarge : 52 ≤ m.log2) :
    2 ^ 52 ≤ m / 2 ^ (m.log2 - 52) ∧ m / 2 ^ (m.log2 - 52) < 2 ^ 53 := by
  have hPos : m ≠ 0 := by
    rintro rfl
    exact absurd hLarge (by decide)
  have hLow : 2 ^ m.log2 ≤ m := Nat.log2_self_le hPos
  have hHigh : m < 2 ^ (m.log2 + 1) := Nat.lt_log2_self
  refine ⟨?_, ?_⟩
  · rwa [Nat.le_div_iff_mul_le (Nat.two_pow_pos _), ← Nat.pow_add, Nat.add_sub_cancel' hLarge]
  · rwa [Nat.div_lt_iff_lt_mul (Nat.two_pow_pos _), ← Nat.pow_add,
      show 53 + (m.log2 - 52) = m.log2 + 1 by omega]

/-- The nearest double to a positive integer is finite exactly when the integer is in the range. -/
theorem nearestBits_lt_iff {m : Nat} (hPos : m ≠ 0) :
    nearestBits m 1 < infinityBits ↔ m < rangeEnd := by
  have hLow : 2 ^ m.log2 ≤ m := Nat.log2_self_le hPos
  have hHigh : m < 2 ^ (m.log2 + 1) := Nat.lt_log2_self
  obtain ⟨half, hHalf, hEnd, hStep, hLast, hBeyond⟩ := rangeEnd_eq
  rw [infinityBits_eq]
  rcases Nat.lt_trichotomy m.log2 1023 with hBelow | hAt | hAbove
  · have hRange : m < rangeEnd := by
      have hPower : 2 ^ (m.log2 + 1) ≤ 2 ^ 1023 := pow_le_pow_right₀ (by decide) hBelow
      omega
    refine iff_of_true ?_ hRange
    by_cases hLarge : 52 ≤ m.log2
    · obtain ⟨-, hAtMost⟩ := roundDiv_bounds m (2 ^ (m.log2 - 52))
      obtain ⟨-, hMantissa⟩ := mantissa_bounds hLarge
      rw [nearestBits_of_large hLarge]
      omega
    · have hMantissa : m * 2 ^ (52 - m.log2) < 2 ^ 53 := by
        have hScaled := Nat.mul_lt_mul_of_pos_right hHigh (Nat.two_pow_pos (52 - m.log2))
        rwa [← Nat.pow_add, show m.log2 + 1 + (52 - m.log2) = 53 by omega] at hScaled
      rw [nearestBits_of_small hPos (by omega)]
      omega
  · have hLarge : 52 ≤ m.log2 := by omega
    have hBits : nearestBits m 1 < 2047 * 2 ^ 52 ↔ roundDiv m (2 ^ 971) < 2 ^ 53 := by
      have hShift : 1023 - 52 = 971 := rfl
      rw [nearestBits_of_large hLarge, hAt, hShift]
      omega
    rw [hBits, roundDiv_lt_iff (pow_pos (by decide) _) (by decide), hStep, hEnd]
    omega
  · have hOver : rangeEnd ≤ m := by
      have hPower : 2 ^ 1024 ≤ 2 ^ m.log2 := pow_le_pow_right₀ (by decide) hAbove
      omega
    have hLarge : 52 ≤ m.log2 := by omega
    obtain ⟨hAtLeast, -⟩ := roundDiv_bounds m (2 ^ (m.log2 - 52))
    obtain ⟨hMantissa, -⟩ := mantissa_bounds hLarge
    refine iff_of_false ?_ (Nat.not_lt.mpr hOver)
    rw [nearestBits_of_large hLarge]
    omega

/-- An integer has no nearest double exactly when it is out of the range. -/
theorem ofInt?_eq_none_iff {n : Int} : ofInt? n = none ↔ rangeEnd ≤ n.natAbs := by
  unfold ofInt?
  by_cases hZero : n = 0
  · simp [hZero, Nat.not_le.mpr rangeEnd_pos]
  · have hPos : n.natAbs ≠ 0 := Int.natAbs_ne_zero.mpr hZero
    rw [if_neg hZero]
    by_cases hFinite : nearestBits n.natAbs 1 < infinityBits
    · rw [if_pos hFinite]
      simp [(nearestBits_lt_iff hPos).mp hFinite]
    · rw [if_neg hFinite]
      simp [Nat.le_of_not_lt (mt (nearestBits_lt_iff hPos).mpr hFinite)]

end StepFlow.Number
