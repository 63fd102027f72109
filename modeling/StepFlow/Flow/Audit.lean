import StepFlow.Flow.Basic
import StepFlow.Value.Display
import StepFlow.Value.Elements
import StepFlow.Value.Equality

/-!
Audits of flows before they run: ids used twice, an entry point or an edge that leads nowhere, a
type without executor, a branch of a router that is no step. Settings of routers are free data, so
an audit meets every kind of value in them.
-/
namespace StepFlow.Flow

/-- One thing that an audit found. -/
structure Issue where
  code : String
  message : String
  stepId : Option String
  deriving DecidableEq, Repr

def Issue.text (i : Issue) : String :=
  let place := match i.stepId with
    | some id => if id.isEmpty then "" else "[" ++ id ++ "] "
    | none => ""
  place ++ i.code ++ ": " ++ i.message

def Issue.dump (i : Issue) : Value :=
  .map [("code", .text i.code), ("message", .text i.message),
    ("step", Value.ofOption .text i.stepId), ("str", .text i.text)]

/-- The type of steps that choose how a run goes on. -/
def routerType : String := "router"

/-- Whether a router leaves the choice to a model. -/
def routesByModel (config : Table Value) : Bool :=
  match config.get? "routingMode" with
  | some mode => mode.isText "llm"
  | none => false

/-- The targets that the edges of a step name. -/
def edgeTargets : Next → List String
  | .unset => []
  | .one id => [id]
  | .several ids => ids
  | .named branches => branches.values

/-- The entry of a listed mapping, if the thing is a mapping and the entry is given. -/
def givenIn? (name : String) (v : Value) : Option Value := do
  let found := Value.field (← v.fields?) name
  if found.isVoid then none else some found

/-- The targets that the settings of a router name. -/
def routerTargets (config : Table Value) : Except Fault (List Value) := do
  if routesByModel config then
    let branches ← (Value.field config "branches").settingElements
    return branches.filterMap (givenIn? "id")
  else
    let routes ← (Value.field config "routes").settingElements
    let fallback := (givenIn? "defaultTarget" (.map config)).toList
    return routes.filterMap (givenIn? "target") ++ fallback

/-- The issue of a branch, none when it is the id of a step. -/
def branchIssue (ids : List String) (stepId : String) (target : Value) :
    Except Fault (List Issue) := do
  let target ← target.hashed
  if target.isOneOf ids then return []
  return [⟨"unknown_branch", "Branch target \"" ++ (← target.display) ++ "\" does not exist",
    some stepId⟩]

/-- The issues of the branches of a router; other steps have none. -/
def branchIssues (ids : List String) (s : Step) : Except Fault (List Issue) := do
  if s.type = routerType then
    let targets ← routerTargets s.config
    return (← targets.mapM (branchIssue ids s.id)).flatten
  return []

def typeIssues (types : List String) (s : Step) : List Issue :=
  if types.contains s.type then []
  else [⟨"unknown_type", "No executor registered for type \"" ++ s.type ++ "\"", some s.id⟩]

def edgeIssues (ids : List String) (s : Step) : List Issue :=
  (edgeTargets s.next).filterMap fun target =>
    if ids.contains target then none
    else some ⟨"unknown_next", "Next step \"" ++ target ++ "\" does not exist", some s.id⟩

def stepIssues (types ids : List String) (s : Step) : Except Fault (List Issue) := do
  return typeIssues types s ++ edgeIssues ids s ++ (← branchIssues ids s)

/-- The issues of ids that several steps share, in the order of the ids. -/
def duplicateIssues (ids : List String) : List Issue :=
  ids.eraseDups.filterMap fun id =>
    let uses := ids.count id
    if 1 < uses then some ⟨"duplicate_step", "Step ID used " ++ toString uses ++ " times", some id⟩
    else none

def entryIssues (f : Flow) : List Issue :=
  match f.entryPoint with
  | some id =>
    if id.isEmpty || f.stepIds.contains id then []
    else [⟨"unknown_entry_point", "Entry point \"" ++ id ++ "\" does not exist", none⟩]
  | none => []

/-- Everything that is wrong with a flow whose steps may have the given types. -/
def audit (f : Flow) (types : List String) : Except Fault (List Issue) := do
  let perStep ← f.steps.mapM (stepIssues types f.stepIds)
  return duplicateIssues f.stepIds ++ f.entryIssues ++ perStep.flatten

end StepFlow.Flow
