import Mathlib.Algebra.Group.Nat.Defs
import StepFlow.Text.Code
import StepFlow.Text.Digit

/-! Texts as they come about: each is made from codes, and the characters that a code is written with
are its own or stand in the block of halves. The last hexadecimal digits of a number are read back as
what they leave of it. -/
namespace StepFlow.Text

/-- A string that holds a text: any codes, surrogates without partners among them, as they are written.
No other string comes about, since halves of codes are only written in pairs. -/
def Coded (s : String) : Prop :=
  ∃ list : List Nat, (∀ code ∈ list, code < codeLimit) ∧ s = ofCodes list

/-- The codes of such a text are written as the text. -/
theorem Coded.codes_spec {s : String} (h : Coded s) :
    (∀ code ∈ codes s, code < codeLimit) ∧ (codes s).flatMap ofCode = s.toList := by
  obtain ⟨list, hBound, rfl⟩ := h
  rw [codes_ofCodes hBound]
  exact ⟨hBound, (String.toList_ofList).symm⟩

/-- A code is written with its own character or with two of the block. -/
theorem toNat_of_mem_ofCode {code : Nat} (hBound : code < codeLimit) {c : Char}
    (hMem : c ∈ ofCode code) : c.toNat = code ∨ blockStart ≤ c.toNat := by
  unfold ofCode at hMem
  split at hMem
  · rename_i number hNumber
    obtain ⟨hFirst, hSecond⟩ := toNat_halves (pairNumber?_eq_some hNumber hBound).1
    right
    simp only [List.mem_cons, List.not_mem_nil, or_false] at hMem
    rcases hMem with rfl | rfl
    · rw [hFirst]
      exact Nat.le_add_right _ _
    · rw [hSecond, Nat.add_assoc]
      exact Nat.le_add_right _ _
  · rename_i hNone
    rw [List.mem_singleton.mp hMem]
    exact .inl (toNat_ofNat_of_isValidChar (pairNumber?_eq_none hNone hBound).1)

section Hexadecimal

theorem hexValue?_hexDigit (n : Nat) : hexValue? (hexDigit n) = some (n % 16) := by
  have hDigits : ∀ d < 16, hexValue? (Nat.digitChar d) = some d := by decide
  exact hDigits (n % 16) (Nat.mod_lt n (by decide))

/-- The last digits of a number spell what they leave of it. -/
theorem hexValueOf?_hexDigits (width n : Nat) :
    hexValueOf? (hexDigits width n) = some (n % 16 ^ width) := by
  induction width generalizing n with
  | zero => simp [hexValueOf?, hexDigits, Nat.mod_one]
  | succ width ih =>
      have hFront := ih (n / 16)
      unfold hexValueOf? at hFront ⊢
      rw [hexDigits, List.foldlM_append, hFront]
      simp only [Option.bind_eq_bind, Option.bind_some, List.foldlM_cons, List.foldlM_nil,
        hexValue?_hexDigit, Option.map_some, Option.pure_def]
      rw [Nat.pow_succ, Nat.mul_comm (16 ^ width), Nat.mod_mul, Nat.add_comm]

end Hexadecimal

end StepFlow.Text
