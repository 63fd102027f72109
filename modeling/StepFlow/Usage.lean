import StepFlow.Value

/-!
Token usage: what a step or a run has spent on models, field by field.
-/
namespace StepFlow

structure Usage where
  prompt : Int := 0
  completion : Int := 0
  total : Int := 0
  deriving DecidableEq, Repr

namespace Usage

def none : Usage := {}

def add (u v : Usage) : Usage :=
  ⟨u.prompt + v.prompt, u.completion + v.completion, u.total + v.total⟩

/-- The sum field by field. -/
def sum (us : List Usage) : Usage := us.foldl add none

def dump (u : Usage) : Value :=
  .map [("prompt", .int u.prompt), ("completion", .int u.completion), ("total", .int u.total)]

theorem add_assoc (u v w : Usage) : (u.add v).add w = u.add (v.add w) := by
  simp [add, Int.add_assoc]

@[simp] theorem none_add (u : Usage) : none.add u = u := by simp [none, add]

@[simp] theorem add_none (u : Usage) : u.add none = u := by simp [none, add]

/-- Summing two lists one after the other adds their sums. -/
theorem sum_append (us vs : List Usage) : sum (us ++ vs) = (sum us).add (sum vs) := by
  have h (ws : List Usage) (u : Usage) : ws.foldl add u = u.add (ws.foldl add none) := by
    induction ws generalizing u with
    | nil => simp
    | cons w ws ih => rw [List.foldl_cons, List.foldl_cons, ih, ih (none.add w), none_add, add_assoc]
  rw [sum, List.foldl_append, h vs, sum, sum]

end Usage

end StepFlow
