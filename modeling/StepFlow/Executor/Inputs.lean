import StepFlow.Expr.Template

/-!
Inputs of steps: templates resolved in the order they are given, and their text in a message to a
model.
-/
namespace StepFlow.Inputs

/-- The values of some templates in one context. -/
def resolveValues (templates : Table Value) (context : Expr.Context) :
    Except Fault (Table Value) :=
  templates.mapM fun (name, template) => do
    return (name, (← Expr.Template.resolveValue template context).1)

def resolve (templates : Option (Table String)) (context : Expr.Context) :
    Except Fault (Table Value) :=
  resolveValues ((templates.getD []).map fun (name, t) => (name, .text t)) context

/-- One line for each input: its name, a colon and its value. -/
def format (inputs : Table Value) : Except Fault String := do
  let lines ← inputs.mapM fun (name, v) => do return name ++ ": " ++ (← v.messageText)
  return String.intercalate "\n" lines

/-- A message of the user, as models are sent it. -/
def userMessage (content : String) : Table Value :=
  [("role", .text "user"), ("content", .text content)]

end StepFlow.Inputs
