import StepFlow.Proofs.Number.Range
import StepFlow.Value.Ordering

/-! How a relation of two values can fail: only an ordering does, and only on an integer beyond the
range of doubles. -/
namespace StepFlow

/-- A relation that orders its two sides. -/
def Relation.Orders (r : Relation) : Prop := r ≠ .eq ∧ r ≠ .ne

namespace Value

/-- Only an integer beyond the range of doubles cannot be taken to a double. -/
theorem double_eq_error_iff {v : Value} {f : Fault} :
    v.double = .error f ↔ f = .integerTooLarge ∧ ∃ n, v = .int n ∧ Number.rangeEnd ≤ n.natAbs := by
  cases v with
  | int n =>
      rw [double, doubleOf]
      cases hDouble : Number.ofInt? n with
      | none => simp [Number.ofInt?_eq_none_iff.mp hDouble, eq_comm]
      | some x =>
          have hWithin : ¬ Number.rangeEnd ≤ n.natAbs := by
            rw [← Number.ofInt?_eq_none_iff, hDouble]
            simp
          simp [hWithin]
  | _ => simp [double]

theorem order_eq_error_iff {r : Relation} {v w : Value} {f : Fault} :
    v.order r w = .error f ↔ f = .integerTooLarge ∧ v ≠ .null ∧ w ≠ .null ∧
      ∃ n, (v = .int n ∨ w = .int n) ∧ Number.rangeEnd ≤ n.natAbs := by
  unfold order
  split
  · simp
  · simp
  · simp
  · rename_i hLeft hRight _
    have hFault : (∃ n, (v = .int n ∨ w = .int n) ∧ Number.rangeEnd ≤ n.natAbs) ↔
        v.double = .error .integerTooLarge ∨ w.double = .error .integerTooLarge := by
      simp only [double_eq_error_iff, true_and, or_and_right, exists_or]
    rw [hFault, and_iff_right hLeft, and_iff_right hRight]
    cases hDouble : v.double with
    | error g =>
        obtain ⟨rfl, -⟩ := double_eq_error_iff.mp hDouble
        simp [bind, Except.bind, eq_comm]
    | ok x =>
        cases hOther : w.double with
        | error g =>
            obtain ⟨rfl, -⟩ := double_eq_error_iff.mp hOther
            simp [bind, Except.bind, eq_comm]
        | ok y => simp [bind, Except.bind, pure, Except.pure]

theorem relate_of_orders {r : Relation} (h : r.Orders) (v w : Value) :
    v.relate r w = v.order r w := by
  cases r with
  | eq => exact absurd rfl h.1
  | ne => exact absurd rfl h.2
  | lt | le | gt | ge => rfl

theorem relate_eq_error_iff {r : Relation} {v w : Value} {f : Fault} :
    v.relate r w = .error f ↔ f = .integerTooLarge ∧ r.Orders ∧ v ≠ .null ∧ w ≠ .null ∧
      ∃ n, (v = .int n ∨ w = .int n) ∧ Number.rangeEnd ≤ n.natAbs := by
  unfold relate Relation.Orders
  cases r with
  | eq => simp
  | ne => simp
  | lt | le | gt | ge => simp [order_eq_error_iff]

end Value

end StepFlow
