import StepFlow.Proofs.Json.Obstacle
import StepFlow.Proofs.Number.Range
import StepFlow.Value.Interpolated

/-! Which values have a text inside templates: those in which no integer has too many digits to be
written, and no name of a mapping is without a form. A double never has too many digits, because even
the greatest has far fewer than the limit allows. -/
namespace StepFlow

namespace Number

/-- The parts of a double are within its 53 bits and below the exponent of infinity. -/
theorem Binary.ofFloat?_bounds {x : Float} {b : Binary} (h : Binary.ofFloat? x = some b) :
    b.mantissa < 2 ^ 53 ∧ b.exponent ≤ 972 := by
  have hPower : twoTo 52 = 2 ^ 52 := rfl
  have hFraction : x.toBits.toNat % twoTo 52 < twoTo 52 := Nat.mod_lt _ (by decide)
  have hScale : x.toBits.toNat / twoTo 52 % 2048 < 2048 := Nat.mod_lt _ (by decide)
  unfold Binary.ofFloat? at h
  simp only at h
  split at h
  · cases h
  · split at h
    · cases h
      exact ⟨by simp only; omega, by simp⟩
    · cases h
      exact ⟨by simp only; omega, by simp only; omega⟩

/-- The magnitude of a double has fewer digits than the limit allows. -/
theorem Binary.ratio_lt {x : Float} {b : Binary} (h : Binary.ofFloat? x = some b) :
    b.ratio.1 < 10 ^ digitLimit := by
  obtain ⟨hMantissa, hExponent⟩ := Binary.ofFloat?_bounds h
  have hTwo : ∀ k, k ≤ digitLimit → 2 ^ k ≤ 10 ^ digitLimit := by
    intro k hSmall
    exact (Nat.pow_le_pow_left (by decide) k).trans (Nat.pow_le_pow_right (by decide) hSmall)
  have hLimit : digitLimit = 4300 := rfl
  unfold Binary.ratio
  split
  · calc b.mantissa * 2 ^ b.exponent.toNat
        < 2 ^ 53 * 2 ^ b.exponent.toNat :=
          Nat.mul_lt_mul_of_pos_right hMantissa (Nat.two_pow_pos _)
      _ = 2 ^ (53 + b.exponent.toNat) := (Nat.pow_add 2 53 _).symm
      _ ≤ 10 ^ digitLimit := hTwo _ (by omega)
  · exact hMantissa.trans_le (hTwo 53 (by omega))

/-- The integer that a double equals can always be written. -/
theorem natAbs_lt_of_integral? {x : Float} {n : Int} (h : integral? x = some n) :
    n.natAbs < 10 ^ digitLimit := by
  unfold integral? at h
  cases hParts : Binary.ofFloat? x with
  | none =>
      rw [hParts] at h
      cases h
  | some b =>
      rw [hParts] at h
      simp only at h
      split at h
      · have hAbs : n.natAbs = b.ratio.1 / b.ratio.2 := by
          rw [← Option.some.inj h]
          split
          · rw [Int.natAbs_neg, Int.natAbs_natCast]
          · rw [Int.natAbs_natCast]
        rw [hAbs]
        exact (Nat.div_le_self _ _).trans_lt (Binary.ratio_lt hParts)
      · cases h

end Number

namespace Value

theorem isWritable_of_lt {n : Int} (h : n.natAbs < 10 ^ Number.digitLimit) :
    (Value.int n).isWritable = true :=
  isWritable_int_iff.mpr ((Nat.length_toDigits_le_iff (by decide) (by decide)).mpr h)

theorem integerText_eq (n : Int) :
    integerText n =
      if (Value.int n).isWritable then .ok (toString n) else .error .integerTooLong := by
  unfold integerText Number.intText? isWritable
  simp only [decide_eq_true_eq]
  by_cases hShort : (toString n.natAbs).length ≤ Number.digitLimit
  · rw [if_pos hShort, if_neg (Nat.not_lt.mpr hShort)]
  · rw [if_neg hShort, if_pos (Nat.lt_of_not_le hShort)]

/-- A value has a text inside templates exactly when no integer in it has too many digits and all
names in it have a form. -/
theorem interpolated_eq_ok_or (v : Value) :
    (v.isWritable = true ∧ Json.hasNames v = true ∧ ∃ s, v.interpolated = .ok s) ∨
      ¬ (v.isWritable = true ∧ Json.hasNames v = true) ∧ ∃ f, v.interpolated = .error f := by
  -- what is shown only when it is writable, and holds no mapping
  have hShown : ∀ s : String, ∀ r : Except Fault String, Json.hasNames v = true →
      r = (if v.isWritable then .ok s else .error .integerTooLong) →
      (v.isWritable = true ∧ Json.hasNames v = true ∧ ∃ s, r = .ok s) ∨
        ¬ (v.isWritable = true ∧ Json.hasNames v = true) ∧ ∃ f, r = .error f := by
    rintro s r hNames rfl
    cases v.isWritable with
    | true => exact .inl ⟨rfl, hNames, s, rfl⟩
    | false => exact .inr ⟨fun hBoth => absurd hBoth.1 Bool.false_ne_true, _, rfl⟩
  cases v with
  | null | bool | nan | text | record =>
      left
      exact ⟨by unfold isWritable; rfl, by unfold Json.hasNames; rfl, _, rfl⟩
  | int n => exact hShown _ _ (by unfold Json.hasNames; rfl) (integerText_eq n)
  | real x =>
      refine .inl ⟨by unfold isWritable; rfl, by unfold Json.hasNames; rfl, ?_⟩
      cases hIntegral : Number.integral? x with
      | none => exact ⟨_, by simp only [interpolated, hIntegral]; rfl⟩
      | some n =>
          have hShort := isWritable_of_lt (Number.natAbs_lt_of_integral? hIntegral)
          exact ⟨toString n, by simp only [interpolated, hIntegral, integerText_eq, hShort, if_true]⟩
  | bytes | timestamp | set => exact hShown _ _ (by unfold Json.hasNames; rfl) rfl
  | list | map | keyed => exact Json.write_eq_ok_or Json.compact _

end Value

end StepFlow
