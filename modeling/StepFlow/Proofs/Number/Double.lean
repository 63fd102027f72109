import Mathlib
import StepFlow.Proofs.Number.Range

/-! Finite doubles counted in steps of the least positive one. Each is a whole number of steps, so
that comparisons of doubles are comparisons of integers, and a double equals an integer exactly
when it has the steps of that integer. -/
namespace StepFlow.Number

open Float.Model (UnpackedFloat Format)
open Float.Model.UnpackedFloat (Sign unpackSign unpackExponent unpackMantissa isNaNBits)

/-- The steps of one. -/
@[irreducible]
def stepsOfOne : Nat := twoTo 1074

theorem stepsOfOne_eq {k : Nat} (h : k = 1074) : stepsOfOne = 2 ^ k := by
  rw [← twoTo_eq, h]
  unfold stepsOfOne
  rfl

theorem stepsOfOne_pos : 0 < stepsOfOne := by
  obtain ⟨k, hk⟩ : ∃ k, k = 1074 := ⟨_, rfl⟩
  rw [stepsOfOne_eq hk]
  exact Nat.two_pow_pos k

namespace Binary

/-- How many steps of the least positive double a number is from zero. -/
def magnitude (b : Binary) : Nat := b.mantissa * 2 ^ (b.exponent + 1074).toNat

/-- The magnitude with the sign. -/
def units (b : Binary) : Int := if b.negative then -(b.magnitude : Int) else b.magnitude

/-- The mantissa has 53 bits, or fewer where the exponent is the least one. -/
structure Canonical (b : Binary) : Prop where
  least : -1074 ≤ b.exponent
  short : b.mantissa < 2 ^ 53
  full : b.exponent = -1074 ∨ 2 ^ 52 ≤ b.mantissa

/-- Of two canonical magnitudes the one with the greater exponent is greater. -/
theorem magnitude_lt {b c : Binary} (hb : b.Canonical) (hc : c.Canonical)
    (hExponents : b.exponent < c.exponent) : b.magnitude < c.magnitude := by
  have hLeast := hb.least
  have hFull : 2 ^ 52 ≤ c.mantissa := hc.full.resolve_left (by omega)
  calc b.magnitude
      < 2 ^ 53 * 2 ^ (b.exponent + 1074).toNat :=
        Nat.mul_lt_mul_of_pos_right hb.short (Nat.two_pow_pos _)
    _ = 2 ^ 52 * 2 ^ ((b.exponent + 1074).toNat + 1) := by
        rw [← Nat.pow_add, ← Nat.pow_add]
        congr 1
        omega
    _ ≤ 2 ^ 52 * 2 ^ (c.exponent + 1074).toNat :=
        Nat.mul_le_mul_left _ (Nat.pow_le_pow_right (by decide) (by omega))
    _ ≤ c.magnitude := Nat.mul_le_mul_right _ hFull

/-- Canonical parts are compared exponents first. -/
theorem compare_parts {b c : Binary} (hb : b.Canonical) (hc : c.Canonical) :
    (compare b.exponent c.exponent).then (compare b.mantissa c.mantissa) =
      compare b.magnitude c.magnitude := by
  rcases Int.lt_trichotomy b.exponent c.exponent with hLess | hEqual | hGreater
  · rw [compare_lt_iff_lt.mpr hLess, compare_lt_iff_lt.mpr (magnitude_lt hb hc hLess)]
    rfl
  · have hScale : 0 < 2 ^ (c.exponent + 1074).toNat := Nat.two_pow_pos _
    rw [compare_eq_iff_eq.mpr hEqual, Ordering.then]
    simp only [magnitude, hEqual, Nat.compare_eq_ite_lt, Nat.mul_lt_mul_right hScale]
  · rw [compare_gt_iff_gt.mpr hGreater, compare_gt_iff_gt.mpr (magnitude_lt hc hb hGreater)]
    rfl

theorem magnitude_pos (b : Binary) (h : 0 < b.mantissa) : 0 < b.magnitude :=
  Nat.mul_pos h (Nat.two_pow_pos _)

theorem units_of_zero {b : Binary} (h : b.mantissa = 0) : b.units = 0 := by
  simp [units, magnitude, h]

/-- Steps are a multiple when their magnitude is, and the sign is that of the factor. -/
theorem units_eq_mul_iff (b : Binary) (n : Int) {k : Nat} (hPos : 0 < k) :
    b.units = n * k ↔ b.magnitude = n.natAbs * k ∧
      (if b.negative then -(n.natAbs : Int) else n.natAbs) = n := by
  obtain ⟨a, ha⟩ := n.eq_nat_or_neg
  have hAbs : n.natAbs = a := by omega
  have hZero : a * k = 0 ↔ a = 0 := by rw [Nat.mul_eq_zero, or_iff_left hPos.ne']
  have hProduct : n * k = ((a * k : Nat) : Int) ∧ n = a ∨
      n * k = -((a * k : Nat) : Int) ∧ n = -a := by
    rcases ha with rfl | rfl
    · exact .inl ⟨(Int.natCast_mul a k).symm, rfl⟩
    · exact .inr ⟨by rw [Int.neg_mul, Int.natCast_mul], rfl⟩
  rw [hAbs]
  generalize a * k = product at hZero hProduct ⊢
  unfold units
  split <;> omega

/-- Parts are a whole number when they have the steps of it. -/
theorem whole_iff (b : Binary) (h : -1074 ≤ b.exponent) (m : Nat) :
    b.ratio.1 = m * b.ratio.2 ↔ b.magnitude = m * stepsOfOne := by
  obtain ⟨k, hk⟩ : ∃ k, k = 1074 := ⟨_, rfl⟩
  rw [stepsOfOne_eq hk]
  unfold ratio magnitude
  simp only [twoTo_eq]
  by_cases hWhole : 0 ≤ b.exponent
  · have hExponent : (b.exponent + 1074).toNat = b.exponent.toNat + k := by omega
    rw [if_pos hWhole, Nat.mul_one, hExponent, Nat.pow_add, ← Nat.mul_assoc]
    exact (Nat.mul_left_inj (Nat.two_pow_pos k).ne').symm
  · have hExponent : (-b.exponent).toNat + (b.exponent + 1074).toNat = k := by omega
    rw [if_neg hWhole, ← Nat.mul_left_inj (Nat.two_pow_pos (b.exponent + 1074).toNat).ne',
      Nat.mul_assoc m, ← Nat.pow_add, hExponent]

theorem ratio_pos (b : Binary) : 0 < b.ratio.2 := by
  unfold ratio
  split
  · exact Nat.one_pos
  · exact Nat.two_pow_pos _

end Binary

/-- What a double is unpacked to, with its steps. -/
inductive Counted : UnpackedFloat → Int → Prop
  | zero (s : Sign) : Counted (.zero s) 0
  | positive (b : Binary) (h : b.Canonical) (hPos : 0 < b.mantissa) :
      Counted (.finite .positive b.mantissa b.exponent hPos) b.magnitude
  | negative (b : Binary) (h : b.Canonical) (hPos : 0 < b.mantissa) :
      Counted (.finite .negative b.mantissa b.exponent hPos) (-b.magnitude)

theorem Counted.finite {b : Binary} (h : b.Canonical) (hPos : 0 < b.mantissa) :
    Counted (.finite (if b.negative then .negative else .positive) b.mantissa b.exponent hPos)
      b.units := by
  unfold Binary.units
  split
  · exact .negative b h hPos
  · exact .positive b h hPos

/-- The sign bit of a word. -/
theorem ofBitVec_unpackSign (w : BitVec 64) :
    Sign.ofBitVec (@unpackSign .binary64 w) =
      if 2 ^ 63 ≤ w.toNat then .negative else .positive := by
  have hWord := w.isLt
  have hBit : (@unpackSign .binary64 w).toNat = w.toNat / 2 ^ 63 := by
    rw [UnpackedFloat.unpackSign_def, BitVec.extractLsb'_toNat,
      Nat.shiftRight_eq_div_pow]
    exact Nat.mod_eq_of_lt (by show w.toNat / 2 ^ 63 < 2; omega)
  have hZero : @unpackSign .binary64 w = 0#1 ↔ w.toNat < 2 ^ 63 := by
    rw [← BitVec.toNat_inj, hBit]
    show w.toNat / 2 ^ 63 = 0 ↔ _
    omega
  by_cases hNegative : 2 ^ 63 ≤ w.toNat
  · rw [if_pos hNegative]
    exact if_neg (mt hZero.mp (Nat.not_lt.mpr hNegative))
  · rw [if_neg hNegative]
    exact if_pos (hZero.mpr (Nat.lt_of_not_le hNegative))

/-- The exponent field of a word. -/
theorem toNat_unpackExponent (w : BitVec 64) :
    (@unpackExponent .binary64 w).toNat = w.toNat / 2 ^ 52 % 2048 := by
  rw [UnpackedFloat.unpackExponent_def, BitVec.extractLsb'_toNat,
    Nat.shiftRight_eq_div_pow]
  rfl

/-- The fraction field of a word. -/
theorem toNat_unpackMantissa (w : BitVec 64) :
    (@unpackMantissa .binary64 w).toNat = w.toNat % 2 ^ 52 := by
  rw [UnpackedFloat.unpackMantissa_def, BitVec.extractLsb'_toNat, Nat.shiftRight_zero]

section Fields

/-! A finite double whose exponent field is zero has no implicit bit; any other has one. -/

variable {x : Float}

theorem ofFloat?_of_least (h : x.toBits.toNat / 2 ^ 52 % 2048 = 0) :
    Binary.ofFloat? x =
      some ⟨decide (2 ^ 63 ≤ x.toBits.toNat), x.toBits.toNat % 2 ^ 52, -1074⟩ := by
  have hFinite : ¬ x.toBits.toNat / 2 ^ 52 % 2048 = 2047 := by omega
  exact (if_neg hFinite).trans (if_pos h)

theorem ofFloat?_of_between {scale : Nat} (h : x.toBits.toNat / 2 ^ 52 % 2048 = scale)
    (hPositive : 0 < scale) (hFinite : scale < 2047) :
    Binary.ofFloat? x =
      some ⟨decide (2 ^ 63 ≤ x.toBits.toNat), x.toBits.toNat % 2 ^ 52 + 2 ^ 52,
        (scale : Int) - 1075⟩ := by
  subst h
  exact (if_neg hFinite.ne).trans (if_neg hPositive.ne')

theorem unpack_of_least (h : x.toBits.toNat / 2 ^ 52 % 2048 = 0) :
    (x.toBits.toNat % 2 ^ 52 = 0 ∧
        x.toModel.unpack = .zero (if 2 ^ 63 ≤ x.toBits.toNat then .negative else .positive)) ∨
      ∃ hPos, x.toModel.unpack =
        .finite (if 2 ^ 63 ≤ x.toBits.toNat then .negative else .positive)
          (x.toBits.toNat % 2 ^ 52) (-1074) hPos := by
  have hScale : @unpackExponent .binary64 x.toBits.toBitVec = 0#11 := by
    rw [← BitVec.toNat_inj, toNat_unpackExponent]
    exact h
  have hNotAll : @unpackExponent .binary64 x.toBits.toBitVec ≠ -1#11 := by
    rw [hScale]
    decide
  have hFraction : @unpackMantissa .binary64 x.toBits.toBitVec = 0#52 ↔
      x.toBits.toNat % 2 ^ 52 = 0 := by
    rw [← BitVec.toNat_inj, toNat_unpackMantissa]
    rfl
  show (_ ∧ UnpackedFloat.unpack Format.binary64 x.toBits.toBitVec = _) ∨
    ∃ hPos, UnpackedFloat.unpack Format.binary64 x.toBits.toBitVec = _
  unfold UnpackedFloat.unpack
  simp only [if_neg hNotAll, if_pos hScale, ofBitVec_unpackSign]
  by_cases hZero : x.toBits.toNat % 2 ^ 52 = 0
  · exact .inl ⟨hZero, dif_pos (hFraction.mpr hZero)⟩
  · refine .inr ⟨Nat.pos_of_ne_zero hZero, ?_⟩
    rw [dif_neg (mt hFraction.mp hZero)]
    simp only [toNat_unpackMantissa, hScale]
    rfl

theorem unpack_of_between {scale : Nat} (h : x.toBits.toNat / 2 ^ 52 % 2048 = scale)
    (hPositive : 0 < scale) (hFinite : scale < 2047) :
    ∃ hPos, x.toModel.unpack =
      .finite (if 2 ^ 63 ≤ x.toBits.toNat then .negative else .positive)
        (x.toBits.toNat % 2 ^ 52 + 2 ^ 52) ((scale : Int) - 1075) hPos := by
  have hNotAll : @unpackExponent .binary64 x.toBits.toBitVec ≠ -1#11 := by
    rw [Ne, ← BitVec.toNat_inj, toNat_unpackExponent]
    exact fun hAll => hFinite.ne (h.symm.trans hAll)
  have hNotNo : @unpackExponent .binary64 x.toBits.toBitVec ≠ 0#11 := by
    rw [Ne, ← BitVec.toNat_inj, toNat_unpackExponent]
    exact fun hNo => hPositive.ne' (h.symm.trans hNo)
  show ∃ hPos, UnpackedFloat.unpack Format.binary64 x.toBits.toBitVec = _
  unfold UnpackedFloat.unpack
  simp only [if_neg hNotAll, if_neg hNotNo, ofBitVec_unpackSign, toNat_unpackExponent]
  have hMantissa : (1#1 ++ @unpackMantissa .binary64 x.toBits.toBitVec).toNat =
      x.toBits.toNat % 2 ^ 52 + 2 ^ 52 := by
    rw [BitVec.toNat_append, toNat_unpackMantissa, Nat.add_comm]
    exact (Nat.two_pow_add_eq_or_of_lt (Nat.mod_lt _ (Nat.two_pow_pos 52)) 1).symm
  refine ⟨by omega, ?_⟩
  have hBias : ((Format.exponentBias .binary64 : Nat) : Int) + (52 : Nat) = 1075 := rfl
  simp only [hMantissa, hBias, ← h]
  rfl

/-- What the parts of a double can be. -/
theorem parts_cases {b : Binary} (h : Binary.ofFloat? x = some b) :
    (x.toBits.toNat / 2 ^ 52 % 2048 = 0 ∧
        b = ⟨decide (2 ^ 63 ≤ x.toBits.toNat), x.toBits.toNat % 2 ^ 52, -1074⟩) ∨
      ∃ scale, x.toBits.toNat / 2 ^ 52 % 2048 = scale ∧ 0 < scale ∧ scale < 2047 ∧
        b = ⟨decide (2 ^ 63 ≤ x.toBits.toNat), x.toBits.toNat % 2 ^ 52 + 2 ^ 52,
          (scale : Int) - 1075⟩ := by
  rcases Nat.lt_trichotomy (x.toBits.toNat / 2 ^ 52 % 2048) 2047 with hBetween | hAll | hOver
  · rcases Nat.eq_zero_or_pos (x.toBits.toNat / 2 ^ 52 % 2048) with hLeast | hPositive
    · rw [ofFloat?_of_least hLeast] at h
      exact .inl ⟨hLeast, (Option.some.inj h).symm⟩
    · rw [ofFloat?_of_between rfl hPositive hBetween] at h
      exact .inr ⟨_, rfl, hPositive, hBetween, (Option.some.inj h).symm⟩
  · rw [Binary.ofFloat?, show x.toBits.toNat / twoTo 52 % 2048 = 2047 from hAll] at h
    cases h
  · omega

theorem canonical_of_parts {b : Binary} (h : Binary.ofFloat? x = some b) : b.Canonical := by
  obtain ⟨-, rfl⟩ | ⟨scale, -, hPositive, -, rfl⟩ := parts_cases h
  · refine ⟨Int.le_refl _, ?_, .inl rfl⟩
    show x.toBits.toNat % 2 ^ 52 < 2 ^ 53
    omega
  · refine ⟨?_, ?_, .inr (Nat.le_add_left _ _)⟩
    · show -1074 ≤ (scale : Int) - 1075
      omega
    · show x.toBits.toNat % 2 ^ 52 + 2 ^ 52 < 2 ^ 53
      omega

/-- A finite double is unpacked to its steps. -/
theorem counted_of_parts {b : Binary} (h : Binary.ofFloat? x = some b) :
    Counted x.toModel.unpack b.units := by
  have hCanonical := canonical_of_parts h
  obtain ⟨hLeast, rfl⟩ | ⟨scale, hScale, hPositive, hFinite, rfl⟩ := parts_cases h
  · obtain ⟨hZero, hUnpacked⟩ | ⟨hPos, hUnpacked⟩ := unpack_of_least hLeast
    · rw [hUnpacked, Binary.units_of_zero hZero]
      exact .zero _
    · rw [hUnpacked]
      simpa using Counted.finite hCanonical hPos
  · obtain ⟨hPos, hUnpacked⟩ := unpack_of_between hScale hPositive hFinite
    rw [hUnpacked]
    simpa using Counted.finite hCanonical hPos

end Fields

/-- Two unpacked doubles compare as their steps do. -/
theorem Counted.compare_eq {u v : UnpackedFloat} {m n : Int} (hu : Counted u m)
    (hv : Counted v n) : u.compare v = some (compare m n) := by
  cases hu with
  | zero s =>
    cases hv with
    | zero t => rfl
    | positive c _ hPos =>
      have hc := c.magnitude_pos hPos
      exact congrArg some (compare_lt_iff_lt.mpr (by omega)).symm
    | negative c _ hPos =>
      have hc := c.magnitude_pos hPos
      exact congrArg some (compare_gt_iff_gt.mpr (by omega)).symm
  | positive b h hPos =>
    have hb := b.magnitude_pos hPos
    cases hv with
    | zero t => exact congrArg some (compare_gt_iff_gt.mpr (by omega)).symm
    | positive c h' _ =>
      show some (Ordering.then _ _) = _
      rw [Binary.compare_parts h h']
      simp [Int.compare_eq_ite_lt, Nat.compare_eq_ite_lt]
    | negative c _ hPos => exact congrArg some (compare_gt_iff_gt.mpr (by omega)).symm
  | negative b h hPos =>
    have hb := b.magnitude_pos hPos
    cases hv with
    | zero t => exact congrArg some (compare_lt_iff_lt.mpr (by omega)).symm
    | positive c _ hPos => exact congrArg some (compare_lt_iff_lt.mpr (by omega)).symm
    | negative c h' _ =>
      show some (Ordering.swap (Ordering.then _ _)) = _
      rw [Binary.compare_parts h h', Nat.compare_swap]
      simp [Int.compare_eq_ite_lt, Nat.compare_eq_ite_lt]

/-- The steps of a finite double from zero. -/
def units? (x : Float) : Option Int := (Binary.ofFloat? x).map Binary.units

section Steps

variable {x y : Float} {m n : Int}

theorem counted_of_units (hx : units? x = some m) : Counted x.toModel.unpack m := by
  obtain ⟨b, hb, rfl⟩ := Option.map_eq_some_iff.mp hx
  exact counted_of_parts hb

theorem lt_iff_units (hx : units? x = some m) (hy : units? y = some n) : x < y ↔ m < n := by
  show (decide ((x.toModel.unpack.compare y.toModel.unpack == some .lt) = true)) = true ↔ _
  rw [(counted_of_units hx).compare_eq (counted_of_units hy)]
  simp [compare_lt_iff_lt]

theorem le_iff_units (hx : units? x = some m) (hy : units? y = some n) : x ≤ y ↔ m ≤ n := by
  show (decide ((x.toModel.unpack.compare y.toModel.unpack).any (·.isLE) = true)) = true ↔ _
  rw [(counted_of_units hx).compare_eq (counted_of_units hy)]
  simp [Ordering.isLE_iff_ne_gt, ← compare_le_iff_le]

theorem beq_iff_units (hx : units? x = some m) (hy : units? y = some n) : x == y ↔ m = n := by
  show (x.toModel.unpack.compare y.toModel.unpack == some .eq) = true ↔ _
  rw [(counted_of_units hx).compare_eq (counted_of_units hy)]
  simp

/-- A double with steps is a number. -/
theorem isNaN_of_units (hx : units? x = some m) : x.isNaN = false := by
  have hCounted := counted_of_units hx
  show x.toModel.unpack.isNaN = false
  generalize x.toModel.unpack = u at hCounted
  cases hCounted <;> rfl

/-- A double equals an integer exactly when it has the steps of that integer. -/
theorem integral?_eq_some_iff : integral? x = some n ↔ units? x = some (n * stepsOfOne) := by
  unfold integral? units?
  cases hParts : Binary.ofFloat? x with
  | none => simp
  | some b =>
    have hWhole := b.whole_iff (canonical_of_parts hParts).least
    simp only [Option.map_some, Option.some.injEq]
    rw [b.units_eq_mul_iff n stepsOfOne_pos, ← hWhole]
    constructor
    · intro h
      split at h
      · rename_i hRest
        have hQuotient : b.ratio.1 = b.ratio.1 / b.ratio.2 * b.ratio.2 :=
          (Nat.div_mul_cancel (Nat.dvd_of_mod_eq_zero hRest)).symm
        cases h
        split
        · exact ⟨by rwa [Int.natAbs_neg, Int.natAbs_natCast],
            by rw [Int.natAbs_neg, Int.natAbs_natCast]⟩
        · exact ⟨by rwa [Int.natAbs_natCast], by rw [Int.natAbs_natCast]⟩
      · cases h
    · rintro ⟨hNum, hSign⟩
      rw [if_pos (by rw [hNum, Nat.mul_mod_left]), hNum, Nat.mul_div_cancel _ b.ratio_pos, hSign]

/-- Doubles that are equal equal the same integer, if any. -/
theorem integral?_of_beq (h : x == y) : integral? x = integral? y := by
  have hZeros : integral? (-0) = integral? 0 := by decide +kernel
  obtain ⟨-, -, rfl | ⟨rfl, rfl⟩ | ⟨rfl, rfl⟩⟩ := Float.beq_iff_ne_nan_and_eq.mp h
  · rfl
  · exact hZeros.symm
  · exact hZeros

/-- Doubles that equal one integer are equal. -/
theorem beq_of_integral? (hx : integral? x = some n) (hy : integral? y = some n) : x == y :=
  (beq_iff_units (integral?_eq_some_iff.mp hx) (integral?_eq_some_iff.mp hy)).mpr rfl

end Steps

/-- The bits of a finite double are those it is made from. -/
theorem toBits_ofBits {v : UInt64} (h : v.toNat / 2 ^ 52 % 2048 ≠ 2047) :
    (Float.ofBits v).toBits = v := by
  have hNumber : @isNaNBits .binary64 v.toBitVec = false := by
    have hScale : @unpackExponent .binary64 v.toBitVec ≠ -1#11 := by
      rw [Ne, ← BitVec.toNat_inj, toNat_unpackExponent]
      exact h
    exact decide_eq_false fun hBoth => hScale hBoth.1
  apply UInt64.toBitVec_inj.mp
  show UnpackedFloat.pack .binary64 (UnpackedFloat.unpack .binary64 v.toBitVec) = v.toBitVec
  rw [UnpackedFloat.pack_unpack, hNumber]
  rfl

/-- A word with a mantissa of 53 bits behind its scale, or with the first of 54. -/
theorem units_of_mantissa {x : Float} {scale mantissa : Nat} {negative : Bool}
    (hBits : x.toBits.toNat = scale * 2 ^ 52 + mantissa + if negative then 2 ^ 63 else 0)
    (hLow : 2 ^ 52 ≤ mantissa) (hHigh : mantissa ≤ 2 ^ 53)
    (hRange : scale * 2 ^ 52 + mantissa < 2047 * 2 ^ 52) :
    units? x = some (if negative then -((mantissa * 2 ^ scale : Nat) : Int)
      else (mantissa * 2 ^ scale : Nat)) := by
  have hSign : decide (2 ^ 63 ≤ x.toBits.toNat) = negative := by
    cases negative <;> simp only [Bool.false_eq_true, if_false, if_true] at hBits <;>
      simp only [decide_eq_true_eq, decide_eq_false_iff_not] <;> omega
  have hWord : x.toBits.toNat / 2 ^ 52 % 2048 = (scale * 2 ^ 52 + mantissa) / 2 ^ 52 ∧
      x.toBits.toNat % 2 ^ 52 = (scale * 2 ^ 52 + mantissa) % 2 ^ 52 := by
    cases negative <;> simp only [Bool.false_eq_true, if_false, if_true] at hBits <;> omega
  rcases Nat.lt_or_eq_of_le hHigh with hShort | hNext
  · have hScale : x.toBits.toNat / 2 ^ 52 % 2048 = scale + 1 := by omega
    have hFraction : x.toBits.toNat % 2 ^ 52 + 2 ^ 52 = mantissa := by omega
    have hExponent : (((scale + 1 : Nat) : Int) - 1075 + 1074).toNat = scale := by omega
    rw [units?, ofFloat?_of_between hScale (by omega) (by omega), Option.map_some, Binary.units,
      Binary.magnitude, hSign, hFraction, hExponent]
  · have hScale : x.toBits.toNat / 2 ^ 52 % 2048 = scale + 2 := by omega
    have hFraction : x.toBits.toNat % 2 ^ 52 = 0 := by omega
    have hExponent : (((scale + 2 : Nat) : Int) - 1075 + 1074).toNat = scale + 1 := by omega
    have hMantissa : mantissa * 2 ^ scale = (0 + 2 ^ 52) * 2 ^ (scale + 1) := by
      rw [hNext, Nat.zero_add, ← Nat.pow_add, ← Nat.pow_add]
      congr 1
      omega
    rw [units?, ofFloat?_of_between hScale (by omega) (by omega), Option.map_some, Binary.units,
      Binary.magnitude, hSign, hFraction, hExponent, hMantissa]

end StepFlow.Number
