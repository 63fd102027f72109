import StepFlow.Definition

/-!
Shelves: definitions kept by name. A definition put under a name that is taken replaces the one
before it.
-/
namespace StepFlow

open Schema

/-- Names in the order of their codes. -/
def sortedNames (names : List String) : List String :=
  names.mergeSort fun s t => !Text.precedes t s

structure Shelf where
  definitions : Table Definition

namespace Shelf

def empty : Shelf := ⟨[]⟩

def add (s : Shelf) (d : Definition) : Shelf := ⟨s.definitions.put d.name d⟩

/-- Adds a definition that is still data. -/
def addData (s : Shelf) (data : Value) : Checked (Definition × Shelf) :=
  (Definition.read data).map fun d => (d, s.add d)

def get? (s : Shelf) (name : String) : Option Definition := s.definitions.get? name

def names (s : Shelf) : List String := sortedNames s.definitions.keys

@[simp] theorem get?_add_self (s : Shelf) (d : Definition) : (s.add d).get? d.name = some d := by
  simp [get?, add]

end Shelf

end StepFlow
