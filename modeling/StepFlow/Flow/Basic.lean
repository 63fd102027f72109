import StepFlow.Flow.Step

/-!
Flows: steps in the order of their definition and, maybe, the step to begin with. Steps may share
an id; the last of them is the one that runs, the first decides what comes after it.
-/
namespace StepFlow

open Schema

structure Flow where
  steps : List Step
  entryPoint : Option String

namespace Flow

def entryName : FieldName := ⟨"entryPoint", "entry_point"⟩

def readFields (fields : Table Value) : Checked Flow :=
  (Checked.and (.ok Flow.mk) (defaulted (list Step.read) (sole "steps") [] fields)).and
    (defaulted (optional text) entryName none fields)

def read : Reader Flow := model readFields

def dump (naming : Naming) (f : Flow) : Value :=
  .map [("steps", .list (f.steps.map Step.dump)),
    (entryName.under naming, Value.ofOption .text f.entryPoint)]

def stepIds (f : Flow) : List String := f.steps.map Step.id

/-- The steps by their ids. -/
def stepMap (f : Flow) : Table Step := Table.ofList (f.steps.map fun s => (s.id, s))

/-- The last step of an id. -/
def step? (f : Flow) (id : String) : Option Step := f.steps.reverse.find? fun s => s.id = id

/-- The place of the first step of an id. -/
def indexOf? (f : Flow) (id : String) : Option Nat := f.steps.findIdx? fun s => s.id = id

end Flow

end StepFlow
