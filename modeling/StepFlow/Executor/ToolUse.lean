import StepFlow.Executor.Basic
import StepFlow.Executor.Inputs

/-!
Steps that use one tool. Its input is the parameters of the step with the step's inputs put over
them. A tool that reports an error fails the step, and its output is kept all the same.
-/
namespace StepFlow.Executor

variable {σ : Type}

/-- The tool that a step names, under either of two names. -/
def toolName (config : Table Value) : Value :=
  ((Value.field config "tool").orElse (Value.field config "toolName")).orElse (.text "")

/-- The parameters of a step. Texts among them are templates. -/
def parameters (config : Table Value) (context : Expr.Context) : Except Fault (Table Value) :=
  let given := (Value.field config "params").orElse (.map [])
  match given.fields? with
  | some fields => fields.mapM fun (name, v) =>
    match v with
    | .text s => do return (name, (← Expr.Template.resolve s context).1)
    | v => .ok (name, v)
  | none => .error (.missingAttribute given.kind "items")

def toolUse (host : Host σ) : Executor σ := fun step ledger budget => do
  let tool := toolName step.config
  if tool.isVoid then return .failure "No tool name specified in step config"
  match ← host.guard budget .null [tool] with
  | some violation => return .failure violation.message
  | none =>
    let inputs ← Act.ofExcept (Inputs.resolve step.inputs ledger.context)
    let params ← Act.ofExcept (parameters step.config ledger.context)
    let called ← Act.attempt (host.callTool
      { tool, input := Table.merge params inputs, accountId := host.accountId })
    match called with
    | .error f =>
      let shown ← Act.ofExcept tool.display
      return .failure (f.messageOr ("Tool \"" ++ shown ++ "\" execution failed"))
    | .ok outcome =>
      match outcome.error with
      | some message =>
        if message.isEmpty then
          return ⟨outcome.output, none, none, .null, .map [("tool", tool)]⟩
        return .failure message outcome.output
      | none => return ⟨outcome.output, none, none, .null, .map [("tool", tool)]⟩

end StepFlow.Executor
