import StepFlow.Proofs.Number.Rounding
import StepFlow.Proofs.Value.Ordering

/-! Relations of two integers as values. Equality is exact, but an ordering compares the doubles
nearest to them: it is that of the integers rounded to 53 bits, and there is none beyond the range
of doubles. -/
namespace StepFlow

/-- A relation of two integers. -/
def Relation.relates (r : Relation) (m n : Int) : Bool :=
  match r with
  | .eq => m == n
  | .ne => m != n
  | .lt => m < n
  | .le => m ≤ n
  | .gt => n < m
  | .ge => n ≤ m

/-- Multiples relate as their factors do. -/
theorem Relation.relates_mul (r : Relation) (m n : Int) {k : Int} (hPos : 0 < k) :
    r.relates (m * k) (n * k) = r.relates m n := by
  have hEqual : (m * k == n * k) = (m == n) := by
    rw [Bool.eq_iff_iff, beq_iff_eq, beq_iff_eq, Int.mul_eq_mul_right_iff hPos.ne']
  cases r with
  | eq => exact hEqual
  | ne => exact congrArg not hEqual
  | lt => exact decide_eq_decide.mpr (Int.mul_lt_mul_right hPos)
  | le => exact decide_eq_decide.mpr (Int.mul_le_mul_right hPos)
  | gt => exact decide_eq_decide.mpr (Int.mul_lt_mul_right hPos)
  | ge => exact decide_eq_decide.mpr (Int.mul_le_mul_right hPos)

namespace Value

variable {m n : Int}

theorem orderDoubles_of_units {x y : Float} (hx : Number.units? x = some m)
    (hy : Number.units? y = some n) (r : Relation) : orderDoubles r x y = r.relates m n := by
  have hEqual : (x == y) = (m == n) :=
    Bool.eq_iff_iff.mpr ((Number.beq_iff_units hx hy).trans beq_iff_eq.symm)
  cases r with
  | eq => exact hEqual
  | ne => exact congrArg not hEqual
  | lt => exact decide_eq_decide.mpr (Number.lt_iff_units hx hy)
  | le => exact decide_eq_decide.mpr (Number.le_iff_units hx hy)
  | gt => exact decide_eq_decide.mpr (Number.lt_iff_units hy hx)
  | ge => exact decide_eq_decide.mpr (Number.le_iff_units hy hx)

/-- An integer within the range of doubles has a double, with the steps of the rounded integer. -/
theorem exists_doubleOf (h : n.natAbs < Number.rangeEnd) : ∃ x, doubleOf n = .ok x ∧
    Number.units? x = some (Number.rounded n * Number.stepsOfOne) := by
  cases hDouble : Number.ofInt? n with
  | none => exact absurd (Number.ofInt?_eq_none_iff.mp hDouble) (Nat.not_le.mpr h)
  | some x => exact ⟨x, by rw [doubleOf, hDouble], Number.units_of_ofInt? hDouble⟩

/-- Integers within the range of doubles are ordered as they are rounded. -/
theorem order_int_of_within (r : Relation) (hm : m.natAbs < Number.rangeEnd)
    (hn : n.natAbs < Number.rangeEnd) : order r (.int m) (.int n) =
      .ok (r.relates (Number.rounded m) (Number.rounded n)) := by
  obtain ⟨x, hx, hUnits⟩ := exists_doubleOf hm
  obtain ⟨y, hy, hUnits'⟩ := exists_doubleOf hn
  show (do
    let x ← doubleOf m
    let y ← doubleOf n
    return !x.isNaN && !y.isNaN && orderDoubles r x y) = _
  rw [hx, hy]
  show Except.ok (!x.isNaN && !y.isNaN && orderDoubles r x y) = _
  rw [Number.isNaN_of_units hUnits, Number.isNaN_of_units hUnits',
    orderDoubles_of_units hUnits hUnits',
    Relation.relates_mul r _ _ (Int.natCast_pos.mpr Number.stepsOfOne_pos)]
  rfl

/-- An integer beyond the range of doubles is ordered beside no other. -/
theorem order_int_of_beyond (r : Relation)
    (h : Number.rangeEnd ≤ m.natAbs ∨ Number.rangeEnd ≤ n.natAbs) :
    order r (.int m) (.int n) = .error .integerTooLarge := by
  refine order_eq_error_iff.mpr ⟨rfl, nofun, nofun, ?_⟩
  rcases h with h | h
  · exact ⟨m, .inl rfl, h⟩
  · exact ⟨n, .inr rfl, h⟩

theorem looseEquals_int (m n : Int) : looseEquals (.int m) (.int n) = (m == n) := by
  show same (.int m) (.int n) = _
  simp [same, quantity?, Quantity.same]

end Value

end StepFlow
