import StepFlow.Ledger
import StepFlow.Scopes
import StepFlow.Value.Equality

/-!
Budgets: the checks of one run against its scopes. Time is counted from the start of the run in
whole milliseconds toward zero; tokens are those on the ledger. A check gives a violation or
nothing.
-/
namespace StepFlow

inductive ViolationType where
  | modelNotAllowed
  | tokenLimitExceeded
  | timeLimitExceeded
  | toolNotAllowed
  | subAgentDenied
  deriving DecidableEq, Repr

def ViolationType.word : ViolationType → String
  | .modelNotAllowed => "model_not_allowed"
  | .tokenLimitExceeded => "token_limit_exceeded"
  | .timeLimitExceeded => "time_limit_exceeded"
  | .toolNotAllowed => "tool_not_allowed"
  | .subAgentDenied => "sub_agent_denied"

structure Violation where
  type : ViolationType
  message : String
  detail : Table Value

def Violation.dump (v : Violation) : Value :=
  .map [("type", .text v.type.word), ("message", .text v.message), ("detail", .map v.detail)]

/-- The scopes of a run and the second of the clock it began at. -/
structure Budget where
  scopes : Scopes
  startedAt : Float

namespace Budget

def listText (names : List String) : String := "[" ++ String.intercalate ", " names ++ "]"

/-- Whole milliseconds since the run began, at a time of the clock. -/
def elapsedMs (b : Budget) (now : Float) : Except Fault Int :=
  let ms := (now - b.startedAt) * 1000.0
  match Number.truncate? ms with
  | some n => .ok n
  | none => .error (if ms.isNaN then .notANumber else .infinite)

/-- A name must be listed, unless the list is empty. -/
def allows (allowed : List String) (name : Value) : Bool := allowed.isEmpty || name.isOneOf allowed

def checkModel (b : Budget) (model : Value) : Except Fault (Option Violation) := do
  let allowed := b.scopes.allowedModels
  if allows allowed model then return none
  return some
    { type := .modelNotAllowed
      message := "Model \"" ++ (← model.display) ++ "\" is not in the allowed list: " ++
        listText allowed
      detail := [("model", model), ("allowed", .list (allowed.map .text))] }

def checkTool (b : Budget) (tool : Value) : Except Fault (Option Violation) := do
  let allowed := b.scopes.allowedTools
  if allows allowed tool then return none
  return some
    { type := .toolNotAllowed
      message := "Tool \"" ++ (← tool.display) ++ "\" is not in the allowed list: " ++
        listText allowed
      detail := [("tool", tool), ("allowed", .list (allowed.map .text))] }

/-- The violation of a time limit by the milliseconds elapsed. -/
def timeViolation (limit elapsed : Int) : Violation :=
  { type := .timeLimitExceeded
    message := "Execution time exceeded: " ++ toString elapsed ++ "ms > " ++ toString limit ++ "ms"
    detail := [("elapsed", .int elapsed), ("limit", .int limit)] }

def checkTime (b : Budget) (now : Float) : Except Fault (Option Violation) := do
  let limit := b.scopes.maxExecutionTimeMs
  if limit ≤ 0 then return none
  let elapsed ← b.elapsedMs now
  if elapsed ≤ limit then return none
  return some (timeViolation limit elapsed)

/-- A count of tokens as it stands in a message. -/
def countText (n : Int) : Except Fault String := (Value.int n).display

/-- Whether so many more tokens would be too many. -/
def checkTokens (b : Budget) (l : Ledger) (additional : Int) : Except Fault (Option Violation) := do
  let limit := b.scopes.maxTotalTokens
  let current := l.usage.total
  let projected := current + additional
  if limit ≤ 0 || projected ≤ limit then return none
  return some
    { type := .tokenLimitExceeded
      message := "Token limit exceeded: " ++ (← countText projected) ++ " > " ++
        (← countText limit) ++ " (current: " ++ (← countText current) ++ ", additional: " ++
        (← countText additional) ++ ")"
      detail := [("current", .int current), ("additional", .int additional),
        ("projected", .int projected), ("limit", .int limit)] }

def checkSubAgent (b : Budget) : Option Violation :=
  if b.scopes.canCreateSubAgents then none
  else some ⟨.subAgentDenied, "This agent scope does not allow creating sub-agents.", []⟩

/-- The first of some tools that is not allowed. -/
def checkTools (b : Budget) : List Value → Except Fault (Option Violation)
  | [] => .ok none
  | tool :: rest => do
    match ← b.checkTool tool with
    | some v => return some v
    | none => b.checkTools rest

/-- The checks before a step calls out: the time, then the model if one is named, then the tools.
The first violation counts. -/
def checkBefore (b : Budget) (now : Float) (model : Value) (tools : List Value) :
    Except Fault (Option Violation) := do
  if let some v ← b.checkTime now then return some v
  if !model.isVoid then
    if let some v ← b.checkModel model then return some v
  b.checkTools tools

/-- The violation of a token limit by what the ledger shows. It names both counts, so there is
none when one of them has too many digits. -/
def tokenViolation (limit total : Int) : Except Fault Violation := do
  return {
    type := .tokenLimitExceeded
    message := "Token limit exceeded after step: " ++ (← countText total) ++ " > " ++
      (← countText limit)
    detail := [("current", .int total), ("limit", .int limit)] }

/-- The check after a step has reported what it spent. -/
def checkAfter (b : Budget) (l : Ledger) : Except Fault (Option Violation) :=
  let limit := b.scopes.maxTotalTokens
  let total := l.usage.total
  if 0 < limit && limit < total then (tokenViolation limit total).map some else .ok none

/-- Milliseconds left, infinitely many without a limit. -/
def timeLeft (b : Budget) (now : Float) : Except Fault Quantity := do
  let limit := b.scopes.maxExecutionTimeMs
  if limit ≤ 0 then return .real (1.0 / 0.0)
  return .int (max 0 (limit - (← b.elapsedMs now)))

/-- Tokens left, infinitely many without a limit. -/
def tokensLeft (b : Budget) (l : Ledger) : Quantity :=
  let limit := b.scopes.maxTotalTokens
  if limit ≤ 0 then .real (1.0 / 0.0) else .int (max 0 (limit - l.usage.total))

end Budget

end StepFlow
