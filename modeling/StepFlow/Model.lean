import StepFlow.Definition
import StepFlow.Fault
import StepFlow.Settings
import StepFlow.Trigger

/-!
The models of stored data by name. Reading data as a model and dumping it again brings it into the
model's own form. Scopes and triggers are fixed once read; the other models can be amended.
-/
namespace StepFlow

open Schema

inductive Model where
  | flow | step | scopes | trigger | definition | settings
  deriving DecidableEq, Repr

namespace Model

def ofName? : String → Option Model
  | "flow" => some .flow
  | "step" => some .step
  | "scopes" => some .scopes
  | "trigger" => some .trigger
  | "definition" => some .definition
  | "settings" => some .settings
  | _ => none

/-- Data in the form of a model, its fields under one of their names. -/
def normalise (m : Model) (naming : Naming) (data : Value) : Checked Value :=
  match m with
  | .flow => (Flow.read data).map (Flow.dump naming)
  | .step => (Step.read data).map Step.dump
  | .scopes => (Scopes.read data).map (Scopes.dump naming)
  | .trigger => (Trigger.read data).map (Trigger.dump naming)
  | .definition => (Definition.read data).map (Definition.dump naming)
  | .settings => (Settings.read data).map (Settings.dump naming)

def isFixed (m : Model) : Bool := m = .scopes || m = .trigger

/-- The name of a model in messages. -/
def title : Model → String
  | .flow => "AgentFlow"
  | .step => "AgentFlowStep"
  | .scopes => "AgentScopes"
  | .trigger => "TriggerData"
  | .definition => "FlowDefinition"
  | .settings => "EngineSettings"

/-- What amending a field can come to. -/
inductive Amended where
  | dump (v : Value)
  | invalid (problems : List Problem)
  | failed (f : Fault)

/-- Data in the form of a model with one field set to a value as it is. Steps take fields of any
name. A name that begins with an underscore is never that of a field, and setting it shows
nowhere. -/
def amend (m : Model) (data : Value) (field : String) (value : Value) : Amended :=
  match m.normalise .plain data with
  | .error problems => .invalid problems
  | .ok (.map fields) =>
    if field.startsWith "_" then .dump (.map fields)
    else if m.isFixed then .invalid [⟨[.name field], .frozen⟩]
    else if m = .step || Table.contains fields field then .dump (.map (Table.put fields field value))
    else .failed (.unknownField m.title field)
  | .ok v => .dump v

end Model

end StepFlow
