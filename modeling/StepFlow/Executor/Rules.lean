import StepFlow.Executor.Basic
import StepFlow.Executor.Inputs
import StepFlow.Value.Elements

/-!
Steps that go through rules in order and take the action of the first that holds. Rules see the
inputs of the step beside everything else, and inputs hide what has an equal name.
-/
namespace StepFlow.Executor

variable {σ : Type}

/-- What going through rules has come to. -/
structure Ruling where
  evaluations : List Value
  action : Value
  value : Value

/-- Nothing matched: the action is to pass. -/
def noRuling (evaluations : List Value) : Ruling := ⟨evaluations, .text "pass", .null⟩

/-- Goes through rules, some having been evaluated before. -/
def ruleOn (context : Expr.Context) (evaluations : List Value) :
    List Value → Except Fault Ruling
  | [] => .ok (noRuling evaluations)
  | check :: rest => do
    let fields ← check.settingFields
    let rule := (Value.field fields "rule").orElse (.text "")
    let holds ← Expr.conditionValue rule context
    let action := Value.field fields "action"
    let evaluations := evaluations ++
      [.map [("rule", rule), ("matched", .bool holds), ("action", action)]]
    if holds then return ⟨evaluations, action, Value.field fields "value"⟩
    ruleOn context evaluations rest

def ruleOutcome (step : Step) (ledger : Ledger) : Except Fault StepResult := do
  let inputs ← Inputs.resolve step.inputs ledger.context
  let checks ← (Value.field step.config "checks").settingElements
  let ruling ← ruleOn (Table.merge ledger.context inputs) [] checks
  pure
    { output := .map [("action", ruling.action), ("value", ruling.value),
        ("evaluations", .list ruling.evaluations)]
      usage := none
      error := none
      nextBranch := .null
      metadata := .map [("checksCount", .int checks.length), ("matchedAction", ruling.action)] }

def rules : Executor σ := fun step ledger _ => Act.ofExcept (ruleOutcome step ledger)

end StepFlow.Executor
