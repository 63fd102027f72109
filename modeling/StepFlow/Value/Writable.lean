import StepFlow.Value
import StepFlow.Number.Numeral

/-!
Writable values: those in which no integer has more digits than may be written. Every printer of
values fails on the others and is defined on these without further conditions.
-/
namespace StepFlow.Value

mutual

def isWritable : Value → Bool
  | .int n => decide ((toString n.natAbs).length ≤ Number.digitLimit)
  | .list items => areWritable items
  | .set members => areWritable members
  | .map fields => fieldsWritable fields
  | .keyed entries => entriesWritable entries
  | _ => true

def areWritable : List Value → Bool
  | [] => true
  | v :: rest => isWritable v && areWritable rest

def fieldsWritable : List (String × Value) → Bool
  | [] => true
  | (_, v) :: rest => isWritable v && fieldsWritable rest

def entriesWritable : List (Value × Value) → Bool
  | [] => true
  | (k, v) :: rest => isWritable k && isWritable v && entriesWritable rest

end

/-- An integer may be written when its decimal digits are not too many. -/
theorem isWritable_int_iff {n : Int} :
    (Value.int n).isWritable = true ↔ (Nat.toDigits 10 n.natAbs).length ≤ Number.digitLimit := by
  unfold isWritable
  rw [decide_eq_true_eq, Nat.toString_eq_ofList_toDigits, String.length_ofList]

/-- A sign is no digit. -/
theorem isWritable_neg (n : Int) : (Value.int (-n)).isWritable = (Value.int n).isWritable := by
  unfold isWritable
  rw [Int.natAbs_neg]

end StepFlow.Value
