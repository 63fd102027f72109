import StepFlow.Flow.Basic
import StepFlow.Scopes

/-!
Definitions: flows as they are kept in files, under a name and together with their scopes.
-/
namespace StepFlow

open Schema

structure Definition where
  name : String
  description : String
  agentId : Option String
  flow : Flow
  scopes : Scopes

namespace Definition

def agentName : FieldName := ⟨"agentId", "agent_id"⟩

def readFields (fields : Table Value) : Checked Definition :=
  ((((Checked.and (.ok Definition.mk) (required text (sole "name") fields)).and
    (defaulted text (sole "description") "" fields)).and
    (defaulted (optional text) agentName none fields)).and
    (defaulted Flow.read (sole "flow") ⟨[], none⟩ fields)).and
    (defaulted Scopes.read (sole "scopes") .standard fields)

def read : Reader Definition := model readFields

def dump (naming : Naming) (d : Definition) : Value :=
  .map [("name", .text d.name), ("description", .text d.description),
    (agentName.under naming, Value.ofOption .text d.agentId),
    ("flow", d.flow.dump naming), ("scopes", d.scopes.dump naming)]

end Definition

end StepFlow
