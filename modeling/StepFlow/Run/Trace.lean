import StepFlow.Ledger

/-!
Traces and results of runs. Every item of the queue that a run looks at leaves one trace; a step
whose tokens break the limit leaves a second.
-/
namespace StepFlow

/-- What has become of a step. -/
inductive Status where
  | completed | skipped | error | scopeViolation
  deriving DecidableEq, Repr

def Status.word : Status → String
  | .completed => "completed"
  | .skipped => "skipped"
  | .error => "error"
  | .scopeViolation => "scope_violation"

/-- The record of one step in a run. Times are in milliseconds. -/
structure Trace where
  stepId : String
  type : String
  status : Status
  startedAt : Float
  completedAt : Float
  output : Value
  error : Option String
  usage : Option Usage
  metadata : Value

namespace Trace

def duration (t : Trace) : Float := t.completedAt - t.startedAt

/-- A trace that takes no time: of a step that never reached its executor. -/
def instant (stepId type : String) (status : Status) (at_ : Float) (error : Option String)
    (metadata : Value) : Trace :=
  ⟨stepId, type, status, at_, at_, .null, error, none, metadata⟩

def dump (t : Trace) : Value :=
  .map [("stepId", .text t.stepId), ("type", .text t.type), ("status", .text t.status.word),
    ("startedAt", .ofFloat t.startedAt), ("completedAt", .ofFloat t.completedAt),
    ("durationMs", .ofFloat t.duration), ("output", t.output),
    ("error", Value.ofOption .text t.error), ("tokenUsage", Value.ofOption Usage.dump t.usage),
    ("meta", t.metadata)]

end Trace

/-- The result of one run. A run that ended with an error did not succeed. -/
structure RunResult where
  success : Bool
  output : Value
  traces : List Trace
  usage : Usage
  durationMs : Float
  error : Option String
  snapshot : Value
  agentId : Option String
  flowName : Option String

namespace RunResult

/-- The result of a flow without steps. -/
def empty (durationMs : Float) (agentId flowName : Option String) : RunResult :=
  ⟨true, .null, [], Usage.none, durationMs, none, .null, agentId, flowName⟩

/-- The ids of the steps that completed. -/
def completedSteps (r : RunResult) : List String :=
  (r.traces.filter fun t => t.status = .completed).map Trace.stepId

/-- The first trace of a step. -/
def trace? (r : RunResult) (id : String) : Option Trace := r.traces.find? fun t => t.stepId = id

def dump (r : RunResult) : Value :=
  .map [("success", .bool r.success), ("agentId", Value.ofOption .text r.agentId),
    ("flowName", Value.ofOption .text r.flowName), ("output", r.output),
    ("steps", .list (r.traces.map Trace.dump)), ("totalTokenUsage", r.usage.dump),
    ("totalDurationMs", .ofFloat r.durationMs), ("error", Value.ofOption .text r.error),
    ("contextSnapshot", r.snapshot)]

end RunResult

end StepFlow
