import StepFlow.Proofs.Expr.Faithful
import StepFlow.Proofs.Number.Range
import StepFlow.Proofs.Run.Snag

/-! Whether a condition is decided. Whatever goes wrong while its expression is evaluated makes it
false. Only the truth of the value is asked for afterwards, where nothing catches a fault any more,
and one kind of value has none: an integer beyond the range of doubles. -/
namespace StepFlow

/-- Exactly the integers beyond the range of doubles have no truth. -/
theorem Value.truth_eq_error_iff_beyond {v : Value} {f : Fault} :
    v.truth = .error f ↔
      .integerTooLarge = f ∧ ∃ n, v = .int n ∧ Number.rangeEnd ≤ n.natAbs := by
  rw [truth_eq_error_iff]
  refine and_congr_right fun _ => exists_congr fun n => and_congr_right fun _ => ?_
  rw [Number.ofInt?_eq_none_iff, and_iff_right_iff_imp]
  rintro hBeyond rfl
  exact absurd hBeyond (Nat.not_le.mpr Number.rangeEnd_pos)

namespace Expr

variable {text : String} {context : Context}

/-- An expression without a value makes its condition false, and the fault is all that is told. -/
theorem condition_of_fault {f : Fault} (hFault : evaluate? (conditionBody text) context = .error f) :
    condition text context = (.ok false, [⟨conditionBody text, f⟩]) := by
  unfold condition evaluate
  rw [hFault]
  rfl

theorem condition_of_value {v : Value} (hValue : evaluate? (conditionBody text) context = .ok v) :
    condition text context = (v.truth, []) := by
  unfold condition evaluate
  rw [hValue]

/-- A condition whose expression cannot be evaluated is false, with the reason as its one diagnostic.
One that can be evaluated is as true as its value, and it is decided unless this is an integer
beyond the range of doubles. That is the only way in which a condition is not decided. -/
theorem condition_decided_unless_beyond (text : String) (context : Context) :
    (∀ f, evaluate? (conditionBody text) context = .error f →
      condition text context = (.ok false, [⟨conditionBody text, f⟩])) ∧
    (∀ v, evaluate? (conditionBody text) context = .ok v →
      condition text context = (v.truth, [])) ∧
    ((∃ b, (condition text context).1 = .ok b) ↔
      ¬ ∃ n, evaluate? (conditionBody text) context = .ok (.int n) ∧
        Number.rangeEnd ≤ n.natAbs) := by
  refine ⟨fun f => condition_of_fault, fun v => condition_of_value, ?_⟩
  cases hValue : evaluate? (conditionBody text) context with
  | error f =>
      rw [condition_of_fault hValue]
      exact ⟨nofun, fun _ => ⟨false, rfl⟩⟩
  | ok v =>
      rw [condition_of_value hValue]
      cases hTruth : v.truth with
      | ok b =>
          refine ⟨?_, fun _ => ⟨b, rfl⟩⟩
          rintro - ⟨n, hInteger, hBeyond⟩
          cases hInteger
          have hNone := Value.truth_eq_error_iff_beyond.mpr ⟨rfl, n, rfl, hBeyond⟩
          rw [hTruth] at hNone
          cases hNone
      | error f =>
          obtain ⟨-, n, rfl, hBeyond⟩ := Value.truth_eq_error_iff_beyond.mp hTruth
          exact ⟨nofun, fun hNone => absurd ⟨n, rfl, hBeyond⟩ hNone⟩

/-- A name alone is evaluated to what the context holds under it. -/
theorem evaluate?_name {name : String} {v : Value} (hName : IsName name)
    (hRead : (Operand.path name []).value context = .ok v) : evaluate? name context = .ok v := by
  have hWritten : Written name (.leaf (.path name [])) := by
    refine ⟨_, .ofAnd (.ofComparison (.ofUnary (.ofPrimary (.operand _)))), ?_⟩
    have hEnd : Laid [] [] := .nil nofun
    have hApart : Apart [] := nofun
    have hLine := @Laid.cons _ _ [] _ _ nofun (.path hName .nil) hApart hEnd
    simpa using hLine
  exact (evaluate?_of_written hWritten context).eq_of_denotes (.leaf hRead)

/-- A condition that names an integer beyond the range of doubles is neither true nor false. -/
theorem condition_of_beyond {n : Int} (hBeyond : Number.rangeEnd ≤ n.natAbs) :
    (condition "n" [("n", .int n)]).1 = .error .integerTooLarge := by
  have hName : IsName "n" := ⟨⟨'n', [], rfl, rfl, nofun⟩, by decide⟩
  have hBody : conditionBody "n" = "n" := rfl
  have hValue : evaluate? (conditionBody "n") [("n", .int n)] = .ok (.int n) := by
    rw [hBody]
    exact evaluate?_name hName rfl
  rw [condition_of_value hValue]
  exact Value.truth_eq_error_iff_beyond.mpr ⟨rfl, n, rfl, hBeyond⟩

/-- The first integer beyond the range is such a one. -/
theorem huge_integer_undecided :
    (condition "n" [("n", .int Number.rangeEnd)]).1 = .error .integerTooLarge :=
  condition_of_beyond (Nat.le_of_eq (Int.natAbs_natCast _).symm)

end Expr

end StepFlow
