import StepFlow.Act
import StepFlow.Budget
import StepFlow.Flow.Step
import StepFlow.Settings

/-!
Executors carry out steps. What they can ask for is given by a `Host`: a model, a search over
knowledge, tools and a clock, each an act on a world of any type. An executor reads the ledger and
never writes it.
-/
namespace StepFlow

/-- What a step has come to. The branch is the id a router chose, if it is one. -/
structure StepResult where
  output : Value
  usage : Option Usage
  error : Option String
  nextBranch : Value
  metadata : Value

namespace StepResult

/-- A failure with its message. -/
def failure (error : String) (output : Value := .null) : StepResult :=
  ⟨output, none, some error, .null, .null⟩

/-- Whether the step counts as failed: an empty message is none. -/
def failed (r : StepResult) : Bool :=
  match r.error with
  | some message => !message.isEmpty
  | none => false

end StepResult

def StepResult.dump (r : StepResult) : Value :=
  .map [("output", r.output), ("usage", Value.ofOption Usage.dump r.usage),
    ("error", Value.ofOption .text r.error), ("next_branch", r.nextBranch), ("meta", r.metadata)]

structure ModelCall where
  model : Value
  systemPrompt : String
  messages : List (Table Value)
  temperature : Value
  maxTokens : Value
  responseFormat : Option String
  providerOrder : Value

/-- The reply of a model and what it cost. -/
structure Completion where
  content : Value
  usage : Option Usage

def Completion.dump (c : Completion) : Value :=
  .map [("content", c.content), ("usage", Value.ofOption Usage.dump c.usage)]

structure SearchCall where
  query : String
  storeIds : List Value
  topK : Value
  minScore : Value
  accountId : Value

structure Chunk where
  content : Value
  score : Value
  source : Value

structure SearchResult where
  chunks : List Chunk
  totalTokens : Int

structure ToolCall where
  tool : Value
  input : Table Value
  accountId : Value

/-- The outcome of a tool. A message that is not empty marks it as failed. -/
structure ToolOutcome where
  output : Value
  error : Option String

def ToolOutcome.dump (o : ToolOutcome) : Value :=
  .map [("output", o.output), ("error", Value.ofOption .text o.error)]

/-- Everything around the steps of a run. -/
structure Host (σ : Type) where
  callModel : ModelCall → Act σ Completion
  search : SearchCall → Act σ SearchResult
  callTool : ToolCall → Act σ ToolOutcome
  /-- The seconds that budgets count. -/
  seconds : StateM σ Float
  /-- The milliseconds that traces are stamped with. -/
  stamp : StateM σ Float
  accountId : Value
  providerOrder : Value
  settings : Except Fault Settings

abbrev Executor (σ : Type) := Step → Ledger → Budget → Act σ StepResult

namespace Host

variable {σ : Type}

/-- The model of a step, or the one from the settings when it names none. -/
def modelFor (host : Host σ) (config : Table Value) : Except Fault Value :=
  let named := Value.field config "model"
  if named.isVoid then host.settings.map fun s => .text s.defaultModel else .ok named

/-- The checks before a step calls out. The clock is read only when there is a limit of time. -/
def guard (host : Host σ) (budget : Budget) (model : Value) (tools : List Value) :
    Act σ (Option Violation) := do
  let now ← if budget.scopes.maxExecutionTimeMs ≤ 0 then pure 0.0 else Act.ofState host.seconds
  Act.ofExcept (budget.checkBefore now model tools)

end Host

end StepFlow
