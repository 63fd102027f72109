import Mathlib.Algebra.Group.Nat.Defs
import StepFlow.Text.Digit

/-! Integers in decimal. The digits that an integer is written with spell it, and a zero leads them
only where it is the one digit; a run of digits stays below the power of ten for its length. -/
namespace StepFlow.Text

theorem isAsciiDigit_iff {c : Char} : isAsciiDigit c = true ↔ 48 ≤ c.toNat ∧ c.toNat ≤ 57 := by
  simp [isAsciiDigit, Char.le_def, UInt32.le_iff_toNat_le]

theorem decimalValue_toDigits (n : Nat) : decimalValue (Nat.toDigits 10 n) = n :=
  Nat.ofDigitChars_ten_toDigits

theorem isAsciiDigit_of_mem_toDigits {n : Nat} {c : Char} (h : c ∈ Nat.toDigits 10 n) :
    isAsciiDigit c = true := by
  have hDigit := Nat.isDigit_of_mem_toDigits (by decide) (by decide) h
  simpa [Char.isDigit, isAsciiDigit, Char.le_def] using hDigit

/-- A run of digits stays below the power of ten for its length. -/
theorem decimalValue_lt {digits : List Char} (hDigits : ∀ c ∈ digits, isAsciiDigit c = true) :
    decimalValue digits < 10 ^ digits.length := by
  have hFrom : ∀ n, digits.foldl (fun n c => 10 * n + (c.toNat - 48)) n <
      10 ^ digits.length * (n + 1) := by
    induction digits with
    | nil => simp
    | cons c digits ih =>
        intro n
        have hDigit := isAsciiDigit_iff.mp (hDigits c List.mem_cons_self)
        calc
          digits.foldl (fun n c => 10 * n + (c.toNat - 48)) (10 * n + (c.toNat - 48))
            < 10 ^ digits.length * (10 * n + (c.toNat - 48) + 1) :=
              ih (fun d hMem => hDigits d (List.mem_cons_of_mem _ hMem)) _
          _ ≤ 10 ^ digits.length * (10 * (n + 1)) := Nat.mul_le_mul_left _ (by omega)
          _ = 10 ^ (digits.length + 1) * (n + 1) := by rw [Nat.pow_succ, Nat.mul_assoc]
  simpa [decimalValue] using hFrom 0

/-- No zero leads the digits of a positive number. -/
theorem head?_toDigits_ne_zero {n : Nat} (hPos : 0 < n) :
    (Nat.toDigits 10 n).head? ≠ some '0' := by
  induction n using Nat.strongRecOn with
  | _ n ih =>
      rcases Nat.lt_or_ge n 10 with hSmall | hLarge
      · have hDigit : ∀ d < 10, 0 < d → Nat.digitChar d ≠ '0' := by decide
        rw [Nat.toDigits_of_lt_base hSmall, List.head?_cons]
        exact fun hZero => hDigit n hSmall hPos (Option.some.inj hZero)
      · have hLeading := ih (n / 10) (by omega) (by omega)
        rw [Nat.toDigits_of_base_le (by decide) hLarge]
        cases hDigits : Nat.toDigits 10 (n / 10) with
        | nil => exact absurd hDigits Nat.toDigits_ne_nil
        | cons c digits =>
            rw [hDigits] at hLeading
            exact hLeading

/-- An integer is written as its digits, behind a sign where it is negative. -/
theorem toList_toString (n : Int) :
    (toString n).toList =
      if 0 ≤ n then Nat.toDigits 10 n.natAbs else '-' :: Nat.toDigits 10 n.natAbs := by
  rw [Int.toString_eq_repr, Int.repr_eq_if]
  split
  · have hAbs : n.toNat = n.natAbs := by omega
    rw [Nat.repr_eq_ofList_toDigits, String.toList_ofList, hAbs]
  · have hAbs : (-n).toNat = n.natAbs := by omega
    have hSign : "-".toList = ['-'] := rfl
    rw [Nat.repr_eq_ofList_toDigits, String.toList_append, hSign, String.toList_ofList, hAbs,
      List.singleton_append]

end StepFlow.Text
