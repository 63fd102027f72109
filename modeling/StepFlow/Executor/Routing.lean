import StepFlow.Executor.Basic
import StepFlow.Executor.Inputs
import StepFlow.Flow.Audit

/-!
Routers choose the branch that a run goes on with. By conditions, the first route that holds wins
and the default is a fallback; by a model, the reply names the branch, quotes aside, whether it is
a listed one or not.
-/
namespace StepFlow.Executor

variable {σ : Type}

/-- A branch chosen by conditions. -/
def conditionResult (target matched : Value) (fallback : Bool) : StepResult :=
  { output := .map [("selectedRoute", target), ("matchedCondition", matched)]
    usage := none
    error := none
    nextBranch := target
    metadata := .map ([("routingMode", .text "condition"), ("selectedRoute", target)] ++
      if fallback then [("fallback", .bool true)] else []) }

/-- A target, once it has been put into words for the log. It fails when it has no text. -/
def announced (target : Value) : Except Fault Value := do
  let _ ← target.display
  return target

/-- The first route that holds, as a result. -/
def firstRoute (context : Expr.Context) : List Value → Except Fault (Option StepResult)
  | [] => .ok none
  | route :: rest => do
    let fields ← route.settingFields
    let condition := Value.field fields "condition"
    if ← Expr.conditionValue (condition.orElse (.text "")) context then
      return some (conditionResult (← announced (Value.field fields "target")) condition false)
    firstRoute context rest

def routeByCondition (step : Step) (ledger : Ledger) : Except Fault StepResult := do
  let routes ← (Value.field step.config "routes").settingElements
  match ← firstRoute ledger.context routes with
  | some result => return result
  | none =>
    let target ← announced ((Value.field step.config "defaultTarget").orElse .null)
    return conditionResult target .null true

def routerTemperature : Value := .real 0.1

def routerMaxTokens : Value := .int 50

/-- One branch in the list that a model chooses from. -/
def branchLine (branch : Value) : Except Fault String := do
  let fields ← branch.settingFields
  let id := Value.field fields "id"
  return "- \"" ++ (← id.display) ++ "\": " ++
    (← ((Value.field fields "description").orElse id).display)

/-- The prompt that asks a model for a branch. -/
def routerPrompt (branches : Value) : Except Fault String := do
  let lines ← (← branches.elements).mapM branchLine
  return "You are a router. Based on the input, select exactly one branch from the list below.\n" ++
    "Respond with ONLY the branch ID, nothing else.\n\nAvailable branches:\n" ++
    String.intercalate "\n" lines

/-- The branch that a reply names: no blanks around it and no quotes anywhere. -/
def selectedBranch (reply : String) : String :=
  String.ofList ((Text.trim reply.toList).filter fun c => c ≠ '"' && c ≠ '\'')

/-- The ids of the listed branches as the members of a set. -/
def branchIds (branches : Value) : Except Fault (List Value) := do
  (← branches.elements).mapM fun branch => do
    (Value.field (← branch.settingFields) "id").hashed

/-- The result of a reply. The listed ids must be fit for a set, whatever was chosen. -/
def replyResult (model branches : Value) (reply : Completion) : Except Fault StepResult := do
  match reply.content with
  | .text content =>
    let selected := selectedBranch content
    let _ ← branchIds branches
    pure
      { output := .map [("selectedRoute", .text selected), ("raw", .text content)]
        usage := reply.usage
        error := none
        nextBranch := if selected.isEmpty then .null else .text selected
        metadata := .map [("routingMode", .text "llm"), ("model", model),
          ("selectedRoute", .text selected)] }
  | v => .error (.missingAttribute v.kind "strip")

def routeByModel (host : Host σ) : Executor σ := fun step ledger budget => do
  let config := step.config
  let model ← Act.ofExcept (host.modelFor config)
  let branches := (Value.field config "branches").orElse (.list [])
  let temperature := (Value.field config "temperature").numberOr routerTemperature
  match ← host.guard budget model [] with
  | some violation => return .failure violation.message
  | none =>
    let inputs ← Act.ofExcept (Inputs.resolve step.inputs ledger.context)
    let reply ← Act.attempt do
      let systemPrompt ← Act.ofExcept (routerPrompt branches)
      let message ← Act.ofExcept (Inputs.format inputs)
      host.callModel
        { model, systemPrompt, messages := [Inputs.userMessage message], temperature
          maxTokens := routerMaxTokens, responseFormat := none
          providerOrder := host.providerOrder }
    match reply with
    | .error f => return .failure (f.messageOr "Router LLM call failed")
    | .ok reply => Act.ofExcept (replyResult model branches reply)

def routing (host : Host σ) : Executor σ := fun step ledger budget =>
  if Flow.routesByModel step.config then routeByModel host step ledger budget
  else Act.ofExcept (routeByCondition step ledger)

end StepFlow.Executor
