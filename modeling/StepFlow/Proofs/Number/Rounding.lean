import StepFlow.Proofs.Number.Double

/-! Integers as doubles. The double nearest to an integer is the integer with all behind its first
53 bits rounded away, so doubles keep the order of integers, but not always their difference. -/
namespace StepFlow.Number

/-- A natural number rounded to 53 bits, a half going to the even neighbour. -/
def roundedNat (m : Nat) : Nat := roundDiv m (2 ^ (m.log2 - 52)) * 2 ^ (m.log2 - 52)

/-- An integer rounded to 53 bits. -/
def rounded (n : Int) : Int := if n < 0 then -(roundedNat n.natAbs : Int) else roundedNat n.natAbs

theorem roundDiv_mono {num num' : Nat} (den : Nat) (h : num ≤ num') :
    roundDiv num den ≤ roundDiv num' den := by
  obtain ⟨-, hAtMost⟩ := roundDiv_bounds num den
  obtain ⟨hAtLeast, -⟩ := roundDiv_bounds num' den
  rcases Nat.lt_or_eq_of_le (Nat.div_le_div_right (c := den) h) with hLess | hSame
  · omega
  · have hRest : num % den ≤ num' % den := by
      have hNum := Nat.div_add_mod num den
      have hNum' := Nat.div_add_mod num' den
      rw [← hSame] at hNum'
      omega
    unfold roundDiv
    simp only [← hSame]
    split_ifs <;> omega

theorem roundedNat_of_short {m : Nat} (h : m.log2 ≤ 52) : roundedNat m = m := by
  rw [roundedNat, Nat.sub_eq_zero_of_le h, Nat.pow_zero, roundDiv_one, Nat.mul_one]

/-- Integers up to the one at which the mantissa is full are doubles themselves. -/
theorem roundedNat_of_small {m : Nat} (h : m ≤ 2 ^ 53) : roundedNat m = m := by
  rcases Nat.lt_or_eq_of_le h with hLess | rfl
  · refine roundedNat_of_short ?_
    rcases Nat.eq_zero_or_pos m with rfl | hPos
    · decide
    · have := (Nat.log2_lt hPos.ne').mpr hLess
      omega
  · rfl

/-- Rounding stays between two powers of two. -/
theorem roundedNat_bounds {m : Nat} (hPos : m ≠ 0) :
    2 ^ m.log2 ≤ roundedNat m ∧ roundedNat m ≤ 2 ^ (m.log2 + 1) := by
  by_cases hLarge : 52 ≤ m.log2
  · obtain ⟨hLow, hHigh⟩ := mantissa_bounds hLarge
    obtain ⟨hAtLeast, hAtMost⟩ := roundDiv_bounds m (2 ^ (m.log2 - 52))
    constructor
    · calc 2 ^ m.log2 = 2 ^ 52 * 2 ^ (m.log2 - 52) := by rw [← Nat.pow_add]; congr 1; omega
        _ ≤ roundedNat m := Nat.mul_le_mul_right _ (by omega)
    · calc roundedNat m ≤ 2 ^ 53 * 2 ^ (m.log2 - 52) := Nat.mul_le_mul_right _ (by omega)
        _ = 2 ^ (m.log2 + 1) := by rw [← Nat.pow_add]; congr 1; omega
  · rw [roundedNat_of_short (by omega)]
    exact ⟨Nat.log2_self_le hPos, Nat.lt_log2_self.le⟩

theorem roundedNat_mono {m n : Nat} (h : m ≤ n) : roundedNat m ≤ roundedNat n := by
  rcases Nat.eq_zero_or_pos m with rfl | hPos
  · exact Nat.zero_le _
  · have hLogs : m.log2 ≤ n.log2 := by
      rw [Nat.le_log2 (by omega)]
      exact (Nat.log2_self_le hPos.ne').trans h
    rcases Nat.lt_or_eq_of_le hLogs with hLess | hSame
    · calc roundedNat m ≤ 2 ^ (m.log2 + 1) := (roundedNat_bounds hPos.ne').2
        _ ≤ 2 ^ n.log2 := Nat.pow_le_pow_right (by decide) hLess
        _ ≤ roundedNat n := (roundedNat_bounds (by omega)).1
    · unfold roundedNat
      rw [hSame]
      exact Nat.mul_le_mul_right _ (roundDiv_mono _ h)

theorem rounded_of_small {n : Int} (h : n.natAbs ≤ 2 ^ 53) : rounded n = n := by
  rw [rounded, roundedNat_of_small h]
  split <;> omega

theorem rounded_mono {m n : Int} (h : m ≤ n) : rounded m ≤ rounded n := by
  unfold rounded
  split
  · split
    · have := roundedNat_mono (show n.natAbs ≤ m.natAbs by omega)
      omega
    · omega
  · rw [if_neg (by omega)]
    have := roundedNat_mono (show m.natAbs ≤ n.natAbs by omega)
    omega

/-- The bits of the double nearest to a positive integer hold its rounding. -/
theorem nearestBits_eq {m : Nat} (hPos : m ≠ 0) : ∃ mantissa, 2 ^ 52 ≤ mantissa ∧
    mantissa ≤ 2 ^ 53 ∧ nearestBits m 1 = (m.log2 + 1022) * 2 ^ 52 + mantissa ∧
    mantissa * 2 ^ (m.log2 + 1022) = roundedNat m * stepsOfOne := by
  obtain ⟨k, hk⟩ : ∃ k, k = 1074 := ⟨_, rfl⟩
  rw [stepsOfOne_eq hk]
  by_cases hLarge : 52 ≤ m.log2
  · obtain ⟨hLow, hHigh⟩ := mantissa_bounds hLarge
    obtain ⟨hAtLeast, hAtMost⟩ := roundDiv_bounds m (2 ^ (m.log2 - 52))
    refine ⟨_, by omega, by omega, nearestBits_of_large hLarge, ?_⟩
    rw [roundedNat, Nat.mul_assoc, ← Nat.pow_add]
    congr 2
    omega
  · have hLow := Nat.mul_le_mul_right (2 ^ (52 - m.log2)) (Nat.log2_self_le hPos)
    have hHigh := Nat.mul_le_mul_right (2 ^ (52 - m.log2)) (Nat.lt_log2_self (n := m)).le
    rw [← Nat.pow_add, show m.log2 + (52 - m.log2) = 52 by omega] at hLow
    rw [← Nat.pow_add, show m.log2 + 1 + (52 - m.log2) = 53 by omega] at hHigh
    refine ⟨_, hLow, hHigh, nearestBits_of_small hPos (by omega), ?_⟩
    rw [roundedNat_of_short (by omega), Nat.mul_assoc, ← Nat.pow_add]
    congr 2
    omega

/-- The double nearest to an integer has the steps of the integer rounded to 53 bits. -/
theorem units_of_ofInt? {x : Float} {n : Int} (h : ofInt? n = some x) :
    units? x = some (rounded n * stepsOfOne) := by
  unfold ofInt? at h
  by_cases hZero : n = 0
  · rw [if_pos hZero] at h
    cases h
    rw [hZero]
    have hUnits : units? 0.0 = some 0 := by decide +kernel
    rw [hUnits, show rounded 0 = 0 by rfl, Int.zero_mul]
  · have hPos : n.natAbs ≠ 0 := Int.natAbs_ne_zero.mpr hZero
    obtain ⟨mantissa, hLow, hHigh, hBits, hSteps⟩ := nearestBits_eq hPos
    rw [if_neg hZero] at h
    by_cases hFinite : nearestBits n.natAbs 1 < infinityBits
    · rw [if_pos hFinite] at h
      cases h
      rw [infinityBits_eq] at hFinite
      have hWord : (nearest (n < 0) n.natAbs 1).toBits.toNat =
          nearestBits n.natAbs 1 + if decide (n < 0) then 2 ^ 63 else 0 := by
        rw [nearest, if_neg hPos, infinityBits_eq, Nat.min_eq_left hFinite.le]
        have hSmall : (if decide (n < 0) then nearestBits n.natAbs 1 + twoTo 63
            else nearestBits n.natAbs 1) < 2 ^ 64 := by
          rw [twoTo_eq]
          split <;> omega
        rw [toBits_ofBits (by rw [UInt64.toNat_ofNat_of_lt' hSmall, twoTo_eq]; split <;> omega),
          UInt64.toNat_ofNat_of_lt' hSmall, twoTo_eq]
        split <;> omega
      rw [hBits] at hWord hFinite
      rw [units_of_mantissa hWord hLow hHigh hFinite, hSteps, rounded]
      split <;> simp_all
    · rw [if_neg hFinite] at h
      cases h

end StepFlow.Number
