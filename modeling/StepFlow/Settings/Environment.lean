import StepFlow.Settings
import StepFlow.Text.Lower

/-!
Settings from an environment of named texts. Numbers are read before anything is checked, so a text
that is no number is met before a number that is out of range. A switch is on only for the word
true.
-/
namespace StepFlow.Settings

open Schema

/-- The texts of an environment by their names. -/
abbrev Environment := String → Option String

/-- The number under a name. -/
def environmentInteger (env : Environment) (name : String) (fallback : Int) : Except Fault Int :=
  match env name with
  | none => .ok fallback
  | some s =>
    match Number.readInt s with
    | .value n => .ok n
    | .malformed => .error (.badNumeral s)
    | .tooLong digits => .error (.numeralTooLong digits)

/-- The switch under a name. -/
def environmentSwitch (env : Environment) (name : String) (fallback : Bool) : Bool :=
  match env name with
  | none => fallback
  | some s => Text.lower s = "true"

def ofEnvironment (env : Environment) : Except Fault Settings := do
  let maxSteps ← environmentInteger env "DEFAULT_MAX_STEPS" 50
  let maxTokens ← environmentInteger env "DEFAULT_MAX_TOTAL_TOKENS" Scopes.defaultTokens
  let maxTime ← environmentInteger env "DEFAULT_MAX_EXECUTION_MS" Scopes.defaultTimeMs
  let scopes := { Scopes.standard with maxTotalTokens := maxTokens, maxExecutionTimeMs := maxTime }
  let settings := readFields
    [("default_max_steps", .int maxSteps),
      ("abort_on_error", .bool (environmentSwitch env "ABORT_ON_ERROR" true)),
      ("default_llm_model", .text ((env "DEFAULT_LLM_MODEL").getD standardModel)),
      ("default_scopes", scopes.dump .plain),
      ("log_level", .text ((env "LOG_LEVEL").getD "INFO")),
      ("json_logs", .bool (environmentSwitch env "JSON_LOGS" false)),
      ("metrics_enabled", .bool (environmentSwitch env "METRICS_ENABLED" true))]
  settings.mapError .unfitSettings

end StepFlow.Settings
