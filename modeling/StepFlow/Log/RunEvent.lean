import StepFlow.Log

/-!
The events of a run, as its log gets them. Durations are rounded to two places.
-/
namespace StepFlow.Log

/-- The sink of one run: its name and its agent are shared fields when they are given. -/
def Sink.ofRun (runId flowName : String) (agentId : Option String) : Sink :=
  { runId := some runId
    shared := (if flowName.isEmpty then [] else [("flow", .text flowName)]) ++
      match agentId with
      | some id => if id.isEmpty then [] else [("agent_id", .text id)]
      | none => [] }

def flowStarted (stepCount entryPoint queue maxSteps : Value) : Event :=
  ⟨.info, "Flow started", [("step_count", stepCount), ("entry_point", entryPoint),
    ("queue", queue), ("max_steps", maxSteps)]⟩

/-- A quantity to two places; other values as they are. -/
def rounded : Value → Value
  | .real x => .ofFloat (Number.roundToHundredths x)
  | v => v

/-- The end of a run. Only a failure says why. -/
def flowEnded (success : Bool) (duration stepsExecuted totalTokens error : Value) : Event :=
  let fields := [("success", .bool success), ("duration_ms", rounded duration),
    ("steps_executed", stepsExecuted), ("total_tokens", totalTokens)]
  if success then ⟨.info, "Flow completed", fields⟩
  else ⟨.error, "Flow failed", fields ++ [("error", error)]⟩

def stepCompleted (id type duration tokens : Value) : Event :=
  ⟨.debug, "Step completed", [("step_id", id), ("step_type", type),
    ("duration_ms", rounded duration), ("tokens", tokens)]⟩

def stepSkipped (id condition : Value) : Event :=
  ⟨.debug, "Step skipped", [("step_id", id), ("condition", condition)]⟩

def stepFailed (id type error : Value) : Event :=
  ⟨.warning, "Step failed", [("step_id", id), ("step_type", type), ("error", error)]⟩

def scopeViolation (id type message : Value) : Event :=
  ⟨.warning, "Scope violation", [("step_id", id), ("violation_type", type), ("error", message)]⟩

def routingDecision (router selected appended : Value) : Event :=
  ⟨.debug, "Routing decision", [("router", router), ("selected_branch", selected),
    ("appended", appended)]⟩

end StepFlow.Log
