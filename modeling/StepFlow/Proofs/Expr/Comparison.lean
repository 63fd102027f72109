import StepFlow.Proofs.Expr.Faithful
import StepFlow.Proofs.Value.Integer

/-! Comparisons of integers in expressions. They tell how two integers are ordered exactly when both
are within the range of doubles and rounding keeps them apart. -/
namespace StepFlow.Expr

variable {context : Context} {m n : Int}

/-- A comparison of two operands that can be read comes to how their values relate. -/
theorem evaluate?_relation {text : String} {r : Relation} {a b : Operand} {v w : Value}
    (hWritten : Written text (.relate r (.leaf a) (.leaf b))) (ha : a.value context = .ok v)
    (hb : b.value context = .ok w) : evaluate? text context = (v.relate r w).map .bool := by
  have hComes := evaluate?_of_written hWritten context
  cases hRelated : v.relate r w with
  | ok holds => exact hComes.eq_of_denotes (.relate (.leaf ha) (.leaf hb) hRelated)
  | error f =>
      have hLeft : Denotes context (.leaf a) v := .leaf ha
      have hRight : Denotes context (.leaf b) w := .leaf hb
      refine hComes.eq_error (.order hLeft hRight hRelated) fun f' hRaises => ?_
      cases hRaises with
      | relateLeft h => exact absurd hLeft (h.not_denotes v)
      | relateRight h => exact absurd hRight (h.not_denotes w)
      | order hLeft' hRight' hRelated' =>
          rw [hLeft.unique hLeft', hRight.unique hRight', hRelated'] at hRelated
          exact Except.error.inj hRelated

theorem value_of_get? {name : String} {v : Value} (h : context.get? name = some v) :
    (Operand.path name []).value context = .ok v := by
  show Except.ok (Value.field context name) = _
  rw [Value.field, h]
  rfl

/-- The text that compares what is named "a" and "b". -/
def comparison (r : Relation) : String := "a " ++ r.spelling ++ " b"

theorem written_comparison (r : Relation) :
    Written (comparison r) (.relate r (.leaf (.path "a" [])) (.leaf (.path "b" []))) := by
  have ha : IsName "a" := ⟨⟨'a', [], rfl, rfl, nofun⟩, by decide⟩
  have hb : IsName "b" := ⟨⟨'b', [], rfl, rfl, nofun⟩, by decide⟩
  have hEnd : Laid [] [] := .nil nofun
  obtain ⟨hLine, hApart⟩ := hEnd.further (.path hb .nil) nofun
  obtain ⟨hLine, hApart⟩ := hLine.further (.relation r) hApart
  have hLine := @Laid.cons _ _ [] _ _ nofun (.path ha .nil) hApart hLine
  have hSentence := Sentence.relate r (.ofPrimary (.operand (Operand.path "a" [])))
    (.ofPrimary (.operand (Operand.path "b" [])))
  exact ⟨_, .ofAnd (.ofComparison hSentence), by simpa [comparison] using hLine⟩

section Named

variable (ha : context.get? "a" = some (.int m)) (hb : context.get? "b" = some (.int n))
include ha hb

theorem evaluate_equality : evaluate "a == b" context = (.bool (m == n), []) := by
  have hValue := evaluate?_relation (written_comparison .eq) (value_of_get? ha) (value_of_get? hb)
  rw [show Value.relate .eq (.int m) (.int n) = .ok (Value.looseEquals (.int m) (.int n)) from rfl,
    Value.looseEquals_int] at hValue
  show evaluate (comparison .eq) context = _
  rw [evaluate, hValue]
  rfl

theorem evaluate_ordering_within {r : Relation} (hOrders : r.Orders)
    (hm : m.natAbs < Number.rangeEnd) (hn : n.natAbs < Number.rangeEnd) :
    evaluate (comparison r) context =
      (.bool (r.relates (Number.rounded m) (Number.rounded n)), []) := by
  have hValue := evaluate?_relation (written_comparison r) (value_of_get? ha) (value_of_get? hb)
  rw [Value.relate_of_orders hOrders, Value.order_int_of_within r hm hn] at hValue
  rw [evaluate, hValue]
  rfl

theorem evaluate_ordering_beyond {r : Relation} (hOrders : r.Orders)
    (h : Number.rangeEnd ≤ m.natAbs ∨ Number.rangeEnd ≤ n.natAbs) :
    evaluate (comparison r) context = (.null, [⟨comparison r, .integerTooLarge⟩]) := by
  have hValue := evaluate?_relation (written_comparison r) (value_of_get? ha) (value_of_get? hb)
  rw [Value.relate_of_orders hOrders, Value.order_int_of_beyond r h] at hValue
  rw [evaluate, hValue]
  rfl

end Named

/-- An expression has the value true. -/
def Holds (context : Context) (text : String) : Prop := (evaluate text context).1 = .bool true

/-- Comparing "a" with "b" tells how two integers are ordered: of three comparisons the right one
alone holds, and the fourth holds exactly when one of two of them does. -/
structure Consistent (context : Context) (m n : Int) : Prop where
  less : Holds context "a < b" ↔ m < n
  equal : Holds context "a == b" ↔ m = n
  greater : Holds context "a > b" ↔ n < m
  atMost : Holds context "a <= b" ↔ Holds context "a < b" ∨ Holds context "a == b"

section Consistency

variable (ha : context.get? "a" = some (.int m)) (hb : context.get? "b" = some (.int n))
include ha hb

theorem holds_equality_iff : Holds context "a == b" ↔ m = n := by
  rw [Holds, evaluate_equality ha hb]
  simp

theorem holds_ordering_iff {r : Relation} (hOrders : r.Orders) (hm : m.natAbs < Number.rangeEnd)
    (hn : n.natAbs < Number.rangeEnd) : Holds context (comparison r) ↔
      r.relates (Number.rounded m) (Number.rounded n) = true := by
  rw [Holds, evaluate_ordering_within ha hb hOrders hm hn]
  simp

theorem not_holds_ordering {r : Relation} (hOrders : r.Orders)
    (h : Number.rangeEnd ≤ m.natAbs ∨ Number.rangeEnd ≤ n.natAbs) :
    ¬ Holds context (comparison r) := by
  rw [Holds, evaluate_ordering_beyond ha hb hOrders h]
  nofun

theorem consistent_iff : Consistent context m n ↔
    (m.natAbs < Number.rangeEnd ∧ n.natAbs < Number.rangeEnd) ∧
      (m = n ∨ Number.rounded m ≠ Number.rounded n) := by
  have hEqual := holds_equality_iff ha hb
  have hLess : Relation.lt.Orders := ⟨nofun, nofun⟩
  have hMost : Relation.le.Orders := ⟨nofun, nofun⟩
  have hMore : Relation.gt.Orders := ⟨nofun, nofun⟩
  by_cases hWithin : m.natAbs < Number.rangeEnd ∧ n.natAbs < Number.rangeEnd
  · obtain ⟨hm, hn⟩ := hWithin
    have hLess : Holds context "a < b" ↔ Number.rounded m < Number.rounded n :=
      (holds_ordering_iff ha hb hLess hm hn).trans decide_eq_true_iff
    have hMost : Holds context "a <= b" ↔ Number.rounded m ≤ Number.rounded n :=
      (holds_ordering_iff ha hb hMost hm hn).trans decide_eq_true_iff
    have hMore : Holds context "a > b" ↔ Number.rounded n < Number.rounded m :=
      (holds_ordering_iff ha hb hMore hm hn).trans decide_eq_true_iff
    rw [and_iff_right ⟨hm, hn⟩]
    constructor
    · rintro ⟨hLess', -, hMore', -⟩
      rw [hLess] at hLess'
      rw [hMore] at hMore'
      omega
    · intro hApart
      have hUp : m ≤ n → Number.rounded m ≤ Number.rounded n := Number.rounded_mono
      have hDown : n ≤ m → Number.rounded n ≤ Number.rounded m := Number.rounded_mono
      have hSame : m = n → Number.rounded m = Number.rounded n := congrArg _
      exact ⟨by rw [hLess]; omega, hEqual, by rw [hMore]; omega,
        by rw [hMost, hLess, hEqual]; omega⟩
  · have hBeyond : Number.rangeEnd ≤ m.natAbs ∨ Number.rangeEnd ≤ n.natAbs := by omega
    refine iff_of_false ?_ fun h => hWithin h.1
    rintro ⟨hLess', -, hMore', hMost'⟩
    have hNotLess : ¬ m < n := fun h => not_holds_ordering ha hb hLess hBeyond (hLess'.mpr h)
    have hNotMore : ¬ n < m := fun h => not_holds_ordering ha hb hMore hBeyond (hMore'.mpr h)
    have hSame : m = n := by omega
    exact not_holds_ordering ha hb hMost hBeyond (hMost'.mpr (.inr (hEqual.mpr hSame)))

/-- Integers of at most 53 bits are compared consistently. -/
theorem consistent_of_small (hm : m.natAbs ≤ 2 ^ 53) (hn : n.natAbs ≤ 2 ^ 53) :
    Consistent context m n := by
  have hRange : 2 ^ 53 < Number.rangeEnd := by
    obtain ⟨half, hHalf, hEnd, -⟩ := Number.rangeEnd_eq
    omega
  refine (consistent_iff ha hb).mpr ⟨⟨by omega, by omega⟩, ?_⟩
  rw [Number.rounded_of_small hm, Number.rounded_of_small hn]
  exact em _

/-- Equality of two integers is exact. Within the range of doubles an ordering of them is that of
the integers rounded to 53 bits, and beyond it there is none, which is told. So comparing two
integers tells their order exactly when both are within the range, and are not rounded to one unless
they are one. -/
theorem integers_ordered_as_rounded :
    (Holds context "a == b" ↔ m = n) ∧
      (m.natAbs < Number.rangeEnd ∧ n.natAbs < Number.rangeEnd →
        ∀ r : Relation, r.Orders → evaluate (comparison r) context =
          (.bool (r.relates (Number.rounded m) (Number.rounded n)), [])) ∧
      (Number.rangeEnd ≤ m.natAbs ∨ Number.rangeEnd ≤ n.natAbs →
        ∀ r : Relation, r.Orders → evaluate (comparison r) context =
          (.null, [⟨comparison r, .integerTooLarge⟩])) ∧
      (Consistent context m n ↔ (m.natAbs < Number.rangeEnd ∧ n.natAbs < Number.rangeEnd) ∧
        (m = n ∨ Number.rounded m ≠ Number.rounded n)) :=
  ⟨holds_equality_iff ha hb,
    fun hWithin _ hOrders => evaluate_ordering_within ha hb hOrders hWithin.1 hWithin.2,
    fun hBeyond _ hOrders => evaluate_ordering_beyond ha hb hOrders hBeyond,
    consistent_iff ha hb⟩

end Consistency

/-- The first two integers of 54 bits that are doubles are told apart. -/
theorem next_doubles_told_apart :
    Consistent [("a", .int (2 ^ 53)), ("b", .int (2 ^ 53 + 2))] (2 ^ 53) (2 ^ 53 + 2) := by
  have hRange : 2 ^ 53 + 2 < Number.rangeEnd := by
    obtain ⟨half, hHalf, hEnd, -⟩ := Number.rangeEnd_eq
    omega
  have hRounded : Number.rounded (2 ^ 53) ≠ Number.rounded (2 ^ 53 + 2) := by decide +kernel
  exact (integers_ordered_as_rounded rfl rfl).2.2.2.mpr ⟨⟨by omega, by omega⟩, .inr hRounded⟩

/-- The integer between them, which is no double, is not told apart from the first. -/
theorem neighbours_not_told_apart :
    ¬ Consistent [("a", .int (2 ^ 53)), ("b", .int (2 ^ 53 + 1))] (2 ^ 53) (2 ^ 53 + 1) := by
  have hRounded : Number.rounded (2 ^ 53) = Number.rounded (2 ^ 53 + 1) := by decide +kernel
  rw [consistent_iff rfl rfl]
  rintro ⟨-, hSame | hApart⟩
  · omega
  · exact hApart hRounded

end StepFlow.Expr
