import StepFlow.Executor.Basic
import StepFlow.Executor.Inputs
import StepFlow.Value.Elements

/-!
Steps that reshape their inputs without calling out: pass them on, pick one, merge them, or fill a
template with them.
-/
namespace StepFlow.Executor

variable {σ : Type}

/-- The inputs as they are, a single one without its name. -/
def passOn (inputs : Table Value) : Value :=
  match inputs with
  | [(_, v)] => v
  | inputs => .map inputs

/-- The input of a name; only texts are names, and lists and mappings cannot even be asked for. -/
def pick (inputs : Table Value) (name : Value) : Except Fault Value := do
  match ← name.hashed with
  | .text s => return Value.field inputs s
  | _ => return .null

/-- What an operation makes of the inputs. Unknown operations pass them on. -/
def reshaped (config : Table Value) (operation : Value) (inputs : Table Value)
    (context : Expr.Context) : Except Fault Value :=
  if operation.isText "extract" then
    pick inputs ((Value.field config "field").orElse (.text "value"))
  else if operation.isText "merge" then .ok (.map inputs)
  else if operation.isText "format" then
    (Expr.Template.resolveValue ((Value.field config "template").orElse (.text ""))
      (Table.merge context inputs)).map Prod.fst
  else .ok (passOn inputs)

def reshapeOutcome (step : Step) (ledger : Ledger) : Except Fault StepResult := do
  let operation := (Value.field step.config "operation").orElse (.text "passthrough")
  let inputs ← Inputs.resolve step.inputs ledger.context
  match reshaped step.config operation inputs ledger.context with
  | .error f => return .failure (f.messageOr "Transform failed")
  | .ok output => return ⟨output, none, none, .null, .map [("operation", operation)]⟩

def reshape : Executor σ := fun step ledger _ => Act.ofExcept (reshapeOutcome step ledger)

end StepFlow.Executor
