import StepFlow.Executor.Basic
import StepFlow.Value.Display
import StepFlow.Value.Elements

/-!
Tools and their registry. Tools report errors in their results; an error without a text is given
one, so that a failed tool never looks like one that succeeded.
-/
namespace StepFlow

structure ToolResult where
  text : String
  isError : Bool
  structured : Value

namespace ToolResult

/-- The structured content when there is any, and otherwise the text. -/
def output (r : ToolResult) : Value :=
  match r.structured with
  | .null => .text r.text
  | v => v

def dump (r : ToolResult) : Value :=
  .map ([("text", .text r.text)] ++ (if r.isError then [("isError", .bool true)] else []) ++
    match r.structured with
    | .null => []
    | v => [("structuredContent", v)])

/-- A result as the outcome of a tool step. -/
def outcome (r : ToolResult) : ToolOutcome :=
  { output := r.output
    error := if r.isError then
        some (if r.text.isEmpty then "Tool reported an error" else r.text)
      else none }

end ToolResult

/-- A tool as it is offered for registration: its fields may be of any kind. -/
structure Tool (σ : Type) where
  name : Value
  description : Value
  inputSchema : Value
  run : Table Value → Act σ ToolResult

/-- Why a tool is not registered. -/
inductive ToolRefusal where
  | noName (shown : String)
  | noDescription (name : String)
  | schemaNoMapping (name : String)
  | schemaNoObject (name : String)
  | schemaNoProperties (name : String)
  | nameTaken (name : String)
  deriving DecidableEq, Repr

def ToolRefusal.message : ToolRefusal → String
  | .noName shown => "Tool must have a valid name: <Tool " ++ shown ++ ">"
  | .noDescription name => "Tool '" ++ name ++ "' must have a description"
  | .schemaNoMapping name => "Tool '" ++ name ++ "' input_schema must be a dict"
  | .schemaNoObject name => "Tool '" ++ name ++ "' input_schema must have type: 'object'"
  | .schemaNoProperties name => "Tool '" ++ name ++ "' input_schema must have 'properties'"
  | .nameTaken name =>
    "Tool '" ++ name ++ "' already registered. Use a unique name or unregister first."

namespace Tool

variable {σ : Type}

def schema (t : Tool σ) : Value :=
  .map [("name", t.name), ("description", t.description), ("input_schema", t.inputSchema)]

/-- A text that is not empty. -/
def someText? : Value → Option String
  | .text s => if s.isEmpty then none else some s
  | _ => none

/-- What is wrong with a tool's schema. -/
def schemaRefusal? (name : String) (v : Value) : Option ToolRefusal :=
  match v.fields? with
  | some fields =>
    if !(Value.field fields "type").isText "object" then some (.schemaNoObject name)
    else if !Table.contains fields "properties" then some (.schemaNoProperties name)
    else none
  | none => some (.schemaNoMapping name)

/-- The name of a tool that is fit for registration. -/
def validName (t : Tool σ) : Except ToolRefusal String :=
  match someText? t.name with
  | none => .error (.noName (match t.name with
      | .text s => s
      | v => String.ofList v.inspected))
  | some name =>
    match someText? t.description with
    | none => .error (.noDescription name)
    | some _ =>
      match schemaRefusal? name t.inputSchema with
      | some refusal => .error refusal
      | none => .ok name

end Tool

/-- Tools by name, in the order of their registration. -/
structure Toolbox (σ : Type) where
  tools : Table (Tool σ)

namespace Toolbox

variable {σ : Type}

def empty : Toolbox σ := ⟨[]⟩

def names (b : Toolbox σ) : List String := b.tools.keys

def register (b : Toolbox σ) (t : Tool σ) : Except ToolRefusal (Toolbox σ) := do
  let name ← t.validName
  if b.tools.contains name then throw (.nameTaken name)
  return ⟨b.tools.put name t⟩

def unregister (b : Toolbox σ) (name : String) : Bool × Toolbox σ :=
  (b.tools.contains name, ⟨b.tools.erase name⟩)

def schemas (b : Toolbox σ) : List Value := b.tools.values.map Tool.schema

def describe (b : Toolbox σ) : String := "<ToolRegistry tools=" ++ Value.inspectTexts b.names ++ ">"

/-- The outcome of asking for a tool that is not there. -/
def missing (b : Toolbox σ) (shown : String) : ToolOutcome :=
  ⟨.null, some ("Tool \"" ++ shown ++ "\" is not registered. Available tools: " ++
    Value.inspectTexts b.names)⟩

/-- The tool of a name, which any value may be that can be asked for. -/
def find (b : Toolbox σ) (name : Value) : Except Fault (Option (Tool σ)) := do
  match ← name.hashed with
  | .text s => return b.tools.get? s
  | _ => return none

/-- Runs the tool that a call names, once the call has been put into words for the log with its
account. -/
def call (b : Toolbox σ) (c : ToolCall) : Act σ ToolOutcome := do
  match ← Act.ofExcept (b.find c.tool) with
  | none => return b.missing (← Act.ofExcept c.tool.display)
  | some t =>
    let _ ← Act.ofExcept c.accountId.display
    return (← t.run c.input).outcome

end Toolbox

end StepFlow
