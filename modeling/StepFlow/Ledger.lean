import StepFlow.Expr.Tree
import StepFlow.Number.Quantity
import StepFlow.Trigger
import StepFlow.Usage
import StepFlow.Value.Display

/-!
Ledgers: what the steps of one run have written, each step once. A ledger also carries the trigger
of the run and its metadata, and gives expressions the names they can read.
-/
namespace StepFlow

/-- The record of one step. -/
structure Entry where
  stepId : String
  type : String
  output : Value
  startedAt : Quantity
  completedAt : Quantity
  usage : Option Usage
  error : Option String

namespace Entry

/-- The time a step took. -/
def duration (e : Entry) : Except Fault Quantity :=
  Fault.ofRange (e.completedAt.sub? e.startedAt)

end Entry

namespace Value

def ofQuantity : Quantity → Value
  | .int n => .int n
  | .real x => .ofFloat x

end Value

namespace Entry

def dump (e : Entry) : Value :=
  .map [("stepId", .text e.stepId), ("type", .text e.type), ("output", e.output),
    ("startedAt", .ofQuantity e.startedAt), ("completedAt", .ofQuantity e.completedAt),
    ("tokenUsage", Value.ofOption Usage.dump e.usage), ("error", Value.ofOption .text e.error)]

end Entry

/-- Entries are held in the order they were written. -/
structure Ledger where
  trigger : Trigger
  metadata : Table Value
  entries : List Entry

namespace Ledger

def start (trigger : Trigger) (metadata : Table Value) : Ledger := ⟨trigger, metadata, []⟩

def entry? (l : Ledger) (id : String) : Option Entry := l.entries.find? fun e => e.stepId = id

def has (l : Ledger) (id : String) : Bool := (l.entry? id).isSome

/-- The output of a step, null when it has none yet. -/
def output (l : Ledger) (id : String) : Value :=
  match l.entry? id with
  | some e => e.output
  | none => .null

def stepIds (l : Ledger) : List String := l.entries.map Entry.stepId

/-- Writes a further entry, unless its step has one. -/
def write? (l : Ledger) (e : Entry) : Option Ledger :=
  if l.has e.stepId then none else some { l with entries := l.entries ++ [e] }

/-- What a second entry of a step is refused with. -/
def refusal (id : String) : String := (Fault.alreadyWritten id).message

def usage (l : Ledger) : Usage := Usage.sum (l.entries.filterMap Entry.usage)

/-- The sum of the durations of all entries. -/
def elapsed (l : Ledger) : Except Fault Quantity := do
  Fault.ofRange (Quantity.sum? (← l.entries.mapM Entry.duration))

def summary (l : Ledger) : Except Fault Value := do
  return .map [("steps", .list (l.stepIds.map .text)), ("usage", l.usage.dump),
    ("elapsed", .ofQuantity (← l.elapsed)), ("len", .int l.entries.length),
    ("repr", .text ("<ContextBus steps=" ++ Value.inspectTexts l.stepIds ++ ">"))]

/-- The names that expressions read: the trigger, the metadata, and the outputs by step. An output
takes the place of an equal name before it. -/
def context (l : Ledger) : Expr.Context :=
  Table.merge [("trigger", l.trigger.dump .stored), ("context", .map l.metadata)]
    (l.entries.map fun e => (e.stepId, e.output))

def snapshot (l : Ledger) : Value :=
  .map [("trigger", l.trigger.dump .stored), ("globalMeta", .map l.metadata),
    ("entries", .list (l.entries.map Entry.dump))]

theorem has_iff_mem (l : Ledger) (id : String) : l.has id = true ↔ id ∈ l.stepIds := by
  simp [has, entry?, stepIds, List.find?_isSome]

end Ledger

end StepFlow
