import StepFlow.Schema.Reader

/-!
Scopes: what a run may use. An empty list of models or tools allows all of them, and a limit of
zero or less is none.
-/
namespace StepFlow

open Schema

structure Scopes where
  allowedModels : List String
  maxTotalTokens : Int
  maxExecutionTimeMs : Int
  allowedTools : List String
  canCreateSubAgents : Bool
  deriving DecidableEq, Repr

namespace Scopes

def modelsName : FieldName := ⟨"allowedModels", "allowed_models"⟩
def tokensName : FieldName := ⟨"maxTotalTokens", "max_total_tokens"⟩
def timeName : FieldName := ⟨"maxExecutionTimeMs", "max_execution_time_ms"⟩
def toolsName : FieldName := ⟨"allowedTools", "allowed_tools"⟩
def subAgentsName : FieldName := ⟨"canCreateSubAgents", "can_create_sub_agents"⟩

def defaultTokens : Int := 5000

def defaultTimeMs : Int := 30000

/-- The scopes of a run that names none. -/
def standard : Scopes := ⟨[], defaultTokens, defaultTimeMs, [], false⟩

/-- No list and no limit. -/
def unlimited : Scopes := ⟨[], 0, 0, [], true⟩

def readFields (fields : Table Value) : Checked Scopes :=
  (((((Checked.and (.ok Scopes.mk) (defaulted (list text) modelsName [] fields)).and
    (defaulted integer tokensName defaultTokens fields)).and
    (defaulted integer timeName defaultTimeMs fields)).and
    (defaulted (list text) toolsName [] fields)).and
    (defaulted boolean subAgentsName false fields))

def read : Reader Scopes := model readFields

def dump (naming : Naming) (s : Scopes) : Value :=
  .map [(modelsName.under naming, .list (s.allowedModels.map .text)),
    (tokensName.under naming, .int s.maxTotalTokens),
    (timeName.under naming, .int s.maxExecutionTimeMs),
    (toolsName.under naming, .list (s.allowedTools.map .text)),
    (subAgentsName.under naming, .bool s.canCreateSubAgents)]

end Scopes

end StepFlow
