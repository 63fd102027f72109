import StepFlow.Executor.Basic
import StepFlow.Executor.Inputs
import StepFlow.Json.Reply

/-!
Steps that call a model once: a template as system prompt and the inputs as the message. A reply
that should be JSON and is not stays text.
-/
namespace StepFlow.Executor

variable {σ : Type}

/-- The temperature of a step that gives none. -/
def standardTemperature : Value := .real 0.7

/-- The most tokens of a step that gives no number. -/
def standardMaxTokens : Value := .int 256

def wantsJson (config : Table Value) : Bool := (Value.field config "responseFormat").isText "json"

/-- The output that a reply becomes. -/
def completionOutput (config : Table Value) (content : Value) : Except Fault Value := do
  if wantsJson config || !(Value.field config "outputSchema").isVoid then
    return (← Json.readReply false content).2
  return content

def completion (host : Host σ) : Executor σ := fun step ledger budget => do
  let config := step.config
  let model ← Act.ofExcept (host.modelFor config)
  let prompt := (Value.field config "systemPrompt").orElse (.text "")
  let temperature := (Value.field config "temperature").numberOr standardTemperature
  let maxTokens := (Value.field config "maxTokens").numberOr standardMaxTokens
  let format := if wantsJson config then "json" else "text"
  match ← host.guard budget model [] with
  | some violation => return .failure violation.message
  | none =>
    let inputs ← Act.ofExcept (Inputs.resolve step.inputs ledger.context)
    let message ← Act.ofExcept (Inputs.format inputs)
    let resolved ← Act.ofExcept (Expr.Template.resolveValue prompt ledger.context)
    let reply ← Act.attempt do
      let systemPrompt ← Act.ofExcept resolved.1.interpolated
      host.callModel
        { model, systemPrompt, messages := [Inputs.userMessage message], temperature, maxTokens
          responseFormat := some format, providerOrder := host.providerOrder }
    match reply with
    | .error f => return .failure (f.messageOr "LLM call failed")
    | .ok reply =>
      let output ← Act.ofExcept (completionOutput config reply.content)
      pure
        { output, usage := reply.usage, error := none, nextBranch := .null
          metadata := .map [("model", model), ("temperature", temperature),
            ("maxTokens", maxTokens), ("responseFormat", .text format)] }

end StepFlow.Executor
